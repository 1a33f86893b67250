import IncusCloud.Agent.Addresses
import IncusCloud.Firecloud.Uplink

/-!
# Addresses that OVN may hand out

What `init` sets up is checked, by either way: no member's address and no gateway is in the ranges
of the UPLINK network. `add` checks nothing, so afterwards it depends on the systems that were
added.
-/

namespace IncusCloud.Firecloud.Uplink

open Lib List Option
open Except (ok.inj)
open OrdMap (get_cons get_nil get)

variable {IP IPNet IPRange : Type} {inet : Inet IP IPNet IPRange} {config : OrdMap String String}
  {uplink : Option (OrdMap String String)} {name address : String} {c : InitConfig}
variable {family : String} {cluster cluster' : Cluster}

/-! ### What OVN may hand out -/

def reserved (inet : Inet IP IPNet IPRange) (config : OrdMap String String) (ipPrefix : String) :
    List IPRange :=
  ((config.get (ipPrefix ++ ".ovn.ranges")).bind inet.ranges).getD []

def families : List String := ["ipv4", "ipv6"]

def Outside (inet : Inet IP IPNet IPRange) (uplink : Option (OrdMap String String)) (addr : String) : Prop :=
  ∀ config ∈ uplink, ∀ family ∈ families, ∀ range ∈ reserved inet config family, ∀ ip ∈ inet.parseIP addr,
    inet.containsIP range ip = false

def GatewaysOutside (inet : Inet IP IPNet IPRange) (uplink : Option (OrdMap String String)) : Prop :=
  ∀ config ∈ uplink, ∀ family ∈ families, ∀ range ∈ reserved inet config family,
    ∀ gateway ∈ config.get (family ++ ".gateway"), ∀ e ∈ inet.parseCIDR gateway,
      inet.containsIP range e.1 = false

structure Safe (inet : Inet IP IPNet IPRange) (cluster : Cluster) : Prop where
  members : ∀ member ∈ cluster.members, Outside inet cluster.uplink member.2
  gateways : GatewaysOutside inet cluster.uplink

/-! ### What is validated -/

def RangesHaveGateway (config : OrdMap String String) : Prop :=
  ∀ family ∈ families, (config.get (family ++ ".ovn.ranges")).isSome = true →
    (config.get (family ++ ".gateway")).isSome = true

theorem defaultOVNNetwork_gateway (ovn : OVNConfig) : RangesHaveGateway (defaultOVNNetwork ovn).1.config := by
  intro family hfamily
  have hcases : family = "ipv4" ∨ family = "ipv6" := by simpa [families] using hfamily
  unfold defaultOVNNetwork
  rcases hcases with rfl | rfl
  · split_ifs <;> simp [get_cons, get_nil]
  · split_ifs <;> simp [get_cons, get_nil]

theorem parseGateway_ok {cidrValidator : String → Bool} {text : Option String}
    {gateway : Option (IP × IPNet)} (h : parseGateway inet family cidrValidator text = .ok gateway) :
    gateway = text.bind inet.parseCIDR ∧ (text.isSome = true → gateway.isSome = true) := by
  cases text with
  | none =>
    obtain rfl := ok.inj h
    exact ⟨rfl, id⟩
  | some text =>
    have hparse := (need_bind_eq_ok.mp h).2
    rcases hcidr : inet.parseCIDR text with _ | parsed
    · rw [hcidr] at hparse
      cases hparse
    · rw [hcidr] at hparse
      obtain rfl := ok.inj hparse
      exact ⟨hcidr.symm, fun _ => rfl⟩

theorem parseOVNRanges_ok {gateway : Option (IP × IPNet)} {text : Option String}
    {ranges : List IPRange} (hgateway : text.isSome = true → gateway.isSome = true)
    (h : parseOVNRanges inet family gateway text = .ok ranges) :
      ranges = (text.bind inet.ranges).getD [] := by
  cases text with
  | none =>
    have hnone : parseOVNRanges inet family gateway none = .ok [] := by
      cases gateway <;> rfl
    rw [hnone] at h
    exact (ok.inj h).symm
  | some text =>
    obtain ⟨⟨ip, subnet⟩, rfl⟩ := isSome_iff_exists.mp (hgateway rfl)
    rcases hparse : inet.parseIPRanges text subnet with _ | written
    · simp [parseOVNRanges, hparse] at h
    · have hwritten : written = ranges := by simpa [parseOVNRanges, hparse] using h
      obtain ⟨read, hread, hall⟩ := bind_eq_some_iff.mp hparse
      split_ifs at hall
      rw [bind_some, hread, getD_some, ← hwritten, some.inj hall]

theorem validateGatewayNet_ok {cidrValidator : String → Bool} {ranges : List IPRange}
    (hgateway : (config.get (family ++ ".ovn.ranges")).isSome = true →
      (config.get (family ++ ".gateway")).isSome = true)
    (h : validateGatewayNet inet config family cidrValidator = .ok ranges) :
    ranges = reserved inet config family ∧ ∀ range ∈ ranges, ∀ gateway ∈ config.get (family ++ ".gateway"),
      ∀ e ∈ inet.parseCIDR gateway, inet.containsIP range e.1 = false := by
  obtain ⟨gateway, hparse, h⟩ := bind_eq_ok.mp h
  obtain ⟨ipRanges, hranges, h⟩ := bind_eq_ok.mp h
  obtain ⟨⟨⟩, hall, h⟩ := bind_eq_ok.mp h
  obtain rfl := ok.inj h
  obtain ⟨heq, hsome⟩ := parseGateway_ok hparse
  refine ⟨parseOVNRanges_ok (fun hwritten => hsome (hgateway hwritten)) hranges, ?_⟩
  intro range hrange text htext e he
  have hgatewayEq : gateway = some e := by
    rw [heq, Option.mem_def.mp htext]
    exact he
  have hcheck := need_eq_ok.mp (forM_eq_ok.mp hall range hrange)
  rw [hgatewayEq] at hcheck
  simpa using hcheck

theorem checkAddress_ok {ranges : List IPRange × List IPRange} {addr : String} :
    checkAddress inet ranges addr = .ok () ↔
      ∃ ip, inet.parseIP addr = some ip ∧ ∀ range ∈ ranges.1 ++ ranges.2,
        inet.containsIP range ip = false := by
  unfold checkAddress
  rcases inet.parseIP addr with _ | ip
  · simp
  · rw [need_bind_eq_ok, need_eq_ok]
    simp [or_imp, forall_and]

theorem ovnRanges_ok (hgateway : RangesHaveGateway config) {ranges : List IPRange × List IPRange}
    (h : ovnRanges inet (some config) = .ok ranges) :
    ranges = (reserved inet config "ipv4", reserved inet config "ipv6") ∧
      GatewaysOutside inet (some config) := by
  obtain ⟨ip4, h4, h⟩ := bind_eq_ok.mp h
  obtain ⟨ip6, h6, h⟩ := bind_eq_ok.mp h
  obtain ⟨-, h⟩ := need_bind_eq_ok.mp h
  obtain rfl := ok.inj h
  obtain ⟨hranges4, hout4⟩ := validateGatewayNet_ok (hgateway "ipv4" (by decide)) h4
  obtain ⟨hranges6, hout6⟩ := validateGatewayNet_ok (hgateway "ipv6" (by decide)) h6
  refine ⟨by rw [hranges4, hranges6], ?_⟩
  intro config' hconfig family hfamily
  obtain rfl := some.inj hconfig
  have hcases : family = "ipv4" ∨ family = "ipv6" := by simpa [families] using hfamily
  rcases hcases with rfl | rfl
  · rw [← hranges4]
    exact hout4
  · rw [← hranges6]
    exact hout6

theorem outside_iff {addr : String} :
    Outside inet (some config) addr ↔ ∀ ip ∈ inet.parseIP addr,
      ∀ range ∈ reserved inet config "ipv4" ++ reserved inet config "ipv6",
        inet.containsIP range ip = false := by
  unfold Outside families
  constructor
  · intro h ip hip range hrange
    rcases mem_append.mp hrange with hrange | hrange
    · exact h config rfl "ipv4" (by simp) range hrange ip hip
    · exact h config rfl "ipv6" (by simp) range hrange ip hip
  · intro h config' hconfig family hfamily range hrange ip hip
    obtain rfl := some.inj hconfig
    have hcases : family = "ipv4" ∨ family = "ipv6" := by simpa using hfamily
    rcases hcases with rfl | rfl
    · exact h ip hip range (mem_append_left _ hrange)
    · exact h ip hip range (mem_append_right _ hrange)

/-! ### A new cluster -/

theorem bootstrapped_safe (hbootstrap : c.bootstrap = true)
    (hgateway : ∀ config ∈ c.bootstrapped.uplink, RangesHaveGateway config)
    (h : validateSystems inet c = .ok ()) :
    Safe inet c.bootstrapped := by
  unfold validateSystems at h
  rw [hbootstrap] at h
  obtain ⟨ranges, hranges, hall⟩ := bind_eq_ok.mp h
  rcases huplink : c.bootstrapped.uplink with _ | config
  · refine ⟨fun member _ config hconfig => ?_, fun config hconfig => ?_⟩
    · rw [huplink] at hconfig
      cases hconfig
    · rw [huplink] at hconfig
      cases hconfig
  · have hread : ovnRanges inet (some config) = .ok ranges := by
      rw [← huplink]
      exact hranges
    obtain ⟨rfl, hgateways⟩ := ovnRanges_ok (hgateway config huplink) hread
    refine ⟨fun member hmember => ?_, ?_⟩
    · obtain ⟨e, he, rfl⟩ := List.mem_map.mp hmember
      obtain ⟨ip, hip, hout⟩ := checkAddress_ok.mp (forM_eq_ok.mp hall e he)
      rw [huplink, outside_iff]
      intro ip' hip'
      rw [Option.mem_def.mp hip'] at hip
      rw [some.inj hip]
      exact hout
    · rw [huplink]
      exact hgateways

theorem get_map {V W : Type} (m : OrdMap String V) (f : String → V → W) (key : String) :
    get (m.map fun e => (e.1, f e.1 e.2)) key = (m.get key).map (f key) := by
  induction m with
  | nil => rfl
  | cons e m ih =>
    rw [map_cons, get_cons, get_cons, ih]
    split_ifs with he
    · rw [he, map_some]
    · rfl

theorem uplinkConfig_defaultOVNNetwork (ovn : OVNConfig) :
    uplinkConfig [(defaultOVNNetwork ovn).1, (defaultOVNNetwork ovn).2] =
      some (defaultOVNNetwork ovn).1.config := by
  simp [uplinkConfig, defaultOVNNetwork]

theorem networks_gateway {overlay : Overlay} {networks : List NetworksPost}
    (h : overlay.networks inet = .ok networks) :
    ∀ config ∈ uplinkConfig networks, RangesHaveGateway config := by
  intro config hconfig
  cases overlay with
  | asked answers =>
    obtain ⟨ovn, -, h⟩ := bind_eq_ok.mp h
    obtain rfl := ok.inj h
    rw [uplinkConfig_defaultOVNNetwork] at hconfig
    rw [← some.inj hconfig]
    exact defaultOVNNetwork_gateway ovn
  | preseeded ovn =>
    obtain ⟨⟨⟩, -, h⟩ := bind_eq_ok.mp h
    obtain rfl := ok.inj h
    rw [uplinkConfig_defaultOVNNetwork] at hconfig
    rw [← some.inj hconfig]
    exact defaultOVNNetwork_gateway ovn
  | other others hnone =>
    obtain rfl := ok.inj h
    rw [hnone] at hconfig
    cases hconfig

theorem runInit_safe {peers : OrdMap String String} {overlay : Overlay} {setup : Except String Unit}
    (h : runInit inet name address peers overlay setup = .ok cluster) : Safe inet cluster := by
  obtain ⟨networks, hnetworks, h⟩ := bind_eq_ok.mp h
  obtain ⟨⟨⟩, hvalid, h⟩ := bind_eq_ok.mp h
  obtain ⟨⟨⟩, -, h⟩ := bind_eq_ok.mp h
  obtain rfl := ok.inj h
  refine bootstrapped_safe rfl ?_ hvalid
  intro config hconfig
  refine networks_gateway hnetworks config ?_
  have hself : (get ((peers.set name address).map fun e =>
      (e.1, (⟨e.2, if e.1 = name then networks else []⟩ : InitSystem))) name) = some ⟨address, networks⟩ := by
    rw [get_map (peers.set name address)
      (fun key addr => (⟨addr, if key = name then networks else []⟩ : InitSystem)),
      OrdMap.get_set]
    simp
  have huplink : config ∈ ((some (⟨address, networks⟩ : InitSystem)).map (·.networks)).bind uplinkConfig := by
    rw [← hself]
    exact hconfig
  exact huplink

/-! ### Systems that are added -/

theorem runAdd_ok {add : Add} (h : runAdd inet cluster add = .ok cluster') :
    cluster' = { cluster with members := cluster.members ++ add.systems } := by
  obtain ⟨⟨⟩, -, h⟩ := bind_eq_ok.mp h
  obtain ⟨⟨⟩, -, h⟩ := bind_eq_ok.mp h
  obtain ⟨-, h⟩ := need_bind_eq_ok.mp h
  exact (ok.inj h).symm

theorem runAdd_safe_iff {add : Add} (h : runAdd inet cluster add = .ok cluster') :
    Safe inet cluster' ↔ Safe inet cluster ∧ ∀ e ∈ add.systems, Outside inet cluster.uplink e.2 := by
  rw [runAdd_ok h]
  constructor
  · rintro ⟨hmembers, hgateways⟩
    exact ⟨⟨fun member hmember => hmembers member (mem_append_left _ hmember), hgateways⟩,
      fun e he => hmembers e (mem_append_right _ he)⟩
  · rintro ⟨⟨hmembers, hgateways⟩, hadded⟩
    refine ⟨fun member hmember => ?_, hgateways⟩
    rcases mem_append.mp hmember with hmember | hmember
    · exact hmembers member hmember
    · exact hadded member hmember

theorem foldlM_runAdd_safe_iff {adds : List Add}
    (h : adds.foldlM (runAdd inet) cluster = .ok cluster') :
    Safe inet cluster' ↔ Safe inet cluster ∧ ∀ add ∈ adds, ∀ e ∈ add.systems,
      Outside inet cluster.uplink e.2 := by
  induction adds generalizing cluster with
  | nil =>
    obtain rfl := ok.inj h
    simp
  | cons add adds ih =>
    obtain ⟨next, hnext, h⟩ := bind_eq_ok.mp h
    have huplink : next.uplink = cluster.uplink := by rw [runAdd_ok hnext]
    rw [ih h, runAdd_safe_iff hnext, huplink, forall_mem_cons, and_assoc]

/-- Neither a member's address nor a gateway can be handed out in a cluster that was just set up;
after any number of adds, exactly where the systems that were added are outside the ranges. -/
theorem members_outside_ranges {peers : OrdMap String String} {overlay : Overlay} {setup : Except String Unit}
    {cluster cluster' : Cluster} {adds : List Add}
    (hinit : runInit inet name address peers overlay setup = .ok cluster)
    (hadds : adds.foldlM (runAdd inet) cluster = .ok cluster') :
    Safe inet cluster ∧
      (Safe inet cluster' ↔ ∀ add ∈ adds, ∀ e ∈ add.systems, Outside inet cluster.uplink e.2) := by
  have hsafe := runInit_safe hinit
  refine ⟨hsafe, (foldlM_runAdd_safe_iff hadds).trans ?_⟩
  exact and_iff_right hsafe

/-! ### A small cluster -/

def dotted : Inet ℕ Agent.IpRange Agent.IpRange where
  parseIP := Agent.ipToInt
  parseCIDR := fun text => do
    let ip ← Agent.ipToInt (Agent.firstTwo '/' text.toList).1
    let block ← Agent.parseRange text
    pure (ip, block)
  to4 := fun _ => true
  isNetworkAddressCIDRV4 := fun text => '/' ∈ text.toList
  isNetworkAddressCIDRV6 := fun _ => false
  isNetworkAddressV4 := fun text => (Agent.ipToInt text).isSome
  isNetworkAddress := fun text => (Agent.ipToInt text).isSome
  isListOf := fun valid text => (split ',' text).all valid
  ranges := fun text => (split ',' text).mapM Agent.parseRange
  liesIn := fun range subnet => subnet.start ≤ range.start && range.stop ≤ subnet.stop
  containsIP := fun range ip => range.start ≤ ip && ip ≤ range.stop

def smallInit : Except String Cluster :=
  runInit dotted "m1" "10.23.1.20" [("m2", "10.23.1.21")]
    (.preseeded ⟨"10.23.1.1/16", "10.23.1.50-10.23.1.100", "", ""⟩) (.ok ())

def smallCluster : Cluster where
  members := [("m2", "10.23.1.21"), ("m1", "10.23.1.20")]
  uplink := some [("ipv4.gateway", "10.23.1.1/16"), ("ipv4.ovn.ranges", "10.23.1.50-10.23.1.100")]

theorem smallInit_eq : smallInit = .ok smallCluster := by decide +kernel

def addAt (path : AddPath) (addr : String) : Add := ⟨path, "m1", "10.23.1.20", [("m3", addr)], .ok ()⟩

def AddedUnsafe (add : Add) : Prop :=
  ∃ cluster, [add].foldlM (runAdd dotted) smallCluster = .ok cluster ∧ ¬ Safe dotted cluster

/-- The third system is outside the ranges. -/
theorem added_outside : ∃ cluster,
    [addAt .preseed "10.23.1.22"].foldlM (runAdd dotted) smallCluster = .ok cluster ∧
    Safe dotted smallCluster ∧ Safe dotted cluster := by
  have hadd : [addAt .preseed "10.23.1.22"].foldlM (runAdd dotted) smallCluster =
      .ok { smallCluster with members := smallCluster.members ++ [("m3", "10.23.1.22")] } := by decide
  obtain ⟨hsafe, hiff⟩ := members_outside_ranges smallInit_eq hadd
  refine ⟨_, hadd, hsafe, hiff.mpr fun add hmem e he => ?_⟩
  rw [mem_singleton.mp hmem] at he
  rw [mem_singleton.mp he]
  exact outside_iff.mpr (by decide)

theorem addedUnsafe_at (path : AddPath) : AddedUnsafe (addAt path "10.23.1.72") := by
  have hadd : [addAt path "10.23.1.72"].foldlM (runAdd dotted) smallCluster =
      .ok { smallCluster with members := smallCluster.members ++ [("m3", "10.23.1.72")] } := by
    cases path <;> decide
  refine ⟨_, hadd, fun hsafe => ?_⟩
  have hout := outside_iff.mp (hsafe.members ("m3", "10.23.1.72") (mem_append_right _ mem_cons_self))
  exact absurd hout (by decide)

/-- A system is added inside the ranges, by either way, to a cluster that was set up with an uplink. -/
theorem added_inside : smallInit = .ok smallCluster ∧
    AddedUnsafe (addAt .interactive "10.23.1.72") ∧ AddedUnsafe (addAt .preseed "10.23.1.72") :=
  ⟨smallInit_eq, addedUnsafe_at .interactive, addedUnsafe_at .preseed⟩

end IncusCloud.Firecloud.Uplink
