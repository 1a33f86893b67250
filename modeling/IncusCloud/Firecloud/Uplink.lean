import IncusCloud.Lib.Checked
import IncusCloud.Lib.OrdMap

/-!
# The ranges of the uplink

Where a cluster gets its UPLINK network and its members from: `validateGatewayNet` and
`validateSystems` (`cmd/firecloud/main_init.go`), `DefaultOVNNetwork` (`service/lxd_config.go`), and
`init`, `add` and `preseed` around them, as far as they decide on addresses. What else may fail in
them is a parameter, and so are the addresses, the subnets and the ranges that texts are read as.
-/

namespace IncusCloud.Firecloud.Uplink

open Lib

/-! ### Addresses -/

/-- `net`, and what `shared` makes of it. -/
structure Inet (IP IPNet IPRange : Type) where
  parseIP : String → Option IP
  parseCIDR : String → Option (IP × IPNet)
  to4 : IP → Bool
  isNetworkAddressCIDRV4 : String → Bool
  isNetworkAddressCIDRV6 : String → Bool
  isNetworkAddressV4 : String → Bool
  isNetworkAddress : String → Bool
  isListOf : (String → Bool) → String → Bool
  ranges : String → Option (List IPRange)
  liesIn : IPRange → IPNet → Bool
  containsIP : IPRange → IP → Bool

variable {IP IPNet IPRange : Type} (inet : Inet IP IPNet IPRange)

/-- `shared.ParseIPRanges`: the ranges as written, all of them in the subnet. -/
def Inet.parseIPRanges (text : String) (subnet : IPNet) : Option (List IPRange) :=
  (inet.ranges text).bind fun ranges => if ranges.all (inet.liesIn · subnet) then some ranges else none

/-! ### Networks -/

def defaultUplinkNetwork : String := "UPLINK"

def defaultOVNNetworkName : String := "default"

structure NetworksPost where
  name : String
  type : String
  config : OrdMap String String

/-- What is asked, or written in the preseed, about OVN. -/
structure OVNConfig where
  ipv4Gateway : String
  ipv4Range : String
  ipv6Gateway : String
  dnsServers : String

def defaultOVNNetwork (ovn : OVNConfig) : NetworksPost × NetworksPost :=
  let ipv4 := if ovn.ipv4Gateway ≠ "" ∧ ovn.ipv4Range ≠ "" then
    [("ipv4.gateway", ovn.ipv4Gateway), ("ipv4.ovn.ranges", ovn.ipv4Range)] else []
  let ipv6 := if ovn.ipv6Gateway ≠ "" then [("ipv6.gateway", ovn.ipv6Gateway)] else []
  let dns := if ovn.dnsServers ≠ "" then [("dns.nameservers", ovn.dnsServers)] else []
  (⟨defaultUplinkNetwork, "physical", ipv4 ++ ipv6 ++ dns⟩,
    ⟨defaultOVNNetworkName, "ovn", [("network", defaultUplinkNetwork)]⟩)

/-- An answer of the interactive setup: a range has two ends. -/
structure OVNAnswers where
  ipv4Gateway : String
  rangeStart : String
  rangeEnd : String
  ipv6Gateway : String
  dnsAddresses : String

/-- `validator` of the gateways. -/
def gatewayAnswer (gateway : String) (v4 : Bool) : Bool :=
  gateway = "" || (inet.parseCIDR gateway).any fun e => inet.to4 e.1 = v4

/-- `askOVNNetwork`, what it makes of the answers. -/
def askOVNNetwork (answers : OVNAnswers) : Except String OVNConfig := do
  need (gatewayAnswer inet answers.ipv4Gateway true) "Not a valid IPv4"
  need (answers.ipv4Gateway = "" ∨
    (inet.isNetworkAddressV4 answers.rangeStart = true ∧ inet.isNetworkAddressV4 answers.rangeEnd = true))
    "Not an IPv4 address"
  need (gatewayAnswer inet answers.ipv6Gateway false) "Not a valid IPv6"
  need (answers.ipv4Gateway ≠ "" ∨ answers.ipv6Gateway ≠ "")
    "Either the IPv4 or IPv6 gateway has to be set on the uplink network"
  need (answers.dnsAddresses = "" ∨ inet.isListOf inet.isNetworkAddress answers.dnsAddresses = true)
    "Invalid DNS addresses"
  pure ⟨answers.ipv4Gateway, if answers.ipv4Gateway = "" then "" else answers.rangeStart ++ "-" ++
    answers.rangeEnd,
    answers.ipv6Gateway, answers.dnsAddresses⟩

/-- `strings.Cut(range, "-")`, both ends addresses. -/
def cutRange (range : String) : Bool :=
  let start := range.toList.takeWhile (· ≠ '-')
  let rest := range.toList.dropWhile (· ≠ '-')
  rest ≠ [] && (inet.parseIP (String.ofList start)).isSome &&
    (inet.parseIP (String.ofList (rest.drop 1))).isSome

/-- What `Preseed.validate` checks of the OVN configuration. -/
def OVNConfig.validate (ovn : OVNConfig) : Except String Unit := do
  need (ovn.ipv4Gateway ≠ "" ∨ ovn.ipv4Range = "") "Cannot specify IPv4 range without IPv4 gateway"
  need (ovn.ipv4Gateway = "" ∨ (inet.parseCIDR ovn.ipv4Gateway).isSome) "invalid CIDR address"
  need (ovn.ipv4Gateway = "" ∨ ovn.ipv4Range ≠ "") "Cannot specify IPv4 range without IPv4 gateway"
  need (ovn.ipv4Gateway = "" ∨ cutRange inet ovn.ipv4Range)
    "Invalid IPv4 range (must be of the form <ip>-<ip>)"
  need (ovn.ipv6Gateway = "" ∨ (inet.parseCIDR ovn.ipv6Gateway).isSome) "invalid CIDR address"

/-! ### Validation -/

/-- `cidrValidator` and `net.ParseCIDR`. -/
def parseGateway (ipPrefix : String) (cidrValidator : String → Bool) :
    Option String → Except String (Option (IP × IPNet))
  | none => .ok none
  | some gateway => do
    need (cidrValidator gateway) ("Invalid " ++ ipPrefix ++ ".gateway")
    match inet.parseCIDR gateway with
    | some parsed => pure (some parsed)
    | none => .error ("Invalid " ++ ipPrefix ++ ".gateway")

def parseOVNRanges (ipPrefix : String) :
    Option (IP × IPNet) → Option String → Except String (List IPRange)
  | some (_, gatewayNet), some ovnRanges =>
    match inet.parseIPRanges ovnRanges gatewayNet with
    | some ranges => .ok ranges
    | none => .error ("Invalid " ++ ipPrefix ++ ".ovn.ranges")
  | _, _ => .ok []

def validateGatewayNet (config : OrdMap String String) (ipPrefix : String)
    (cidrValidator : String → Bool) : Except String (List IPRange) := do
  let gateway ← parseGateway inet ipPrefix cidrValidator (config.get (ipPrefix ++ ".gateway"))
  let ovnIPRanges ← parseOVNRanges inet ipPrefix gateway (config.get (ipPrefix ++ ".ovn.ranges"))
  ovnIPRanges.forM fun ipRange =>
    need (¬ gateway.any fun e => inet.containsIP ipRange e.1)
      (defaultUplinkNetwork ++ " " ++ ipPrefix ++ ".ovn.ranges must not include gateway address")
  pure ovnIPRanges

structure InitSystem where
  address : String
  networks : List NetworksPost

/-- The setup of one run; `name` and `address` are the handler's. -/
structure InitConfig where
  name : String
  address : String
  bootstrap : Bool
  systems : OrdMap String InitSystem

def uplinkConfig (networks : List NetworksPost) : Option (OrdMap String String) :=
  (networks.find? fun network => network.type = "physical" && network.name =
    defaultUplinkNetwork).map (·.config)

def ovnRanges : Option (OrdMap String String) → Except String (List IPRange × List IPRange)
  | none => .ok ([], [])
  | some config => do
    let ip4OVNRanges ← validateGatewayNet inet config "ipv4" inet.isNetworkAddressCIDRV4
    let ip6OVNRanges ← validateGatewayNet inet config "ipv6" inet.isNetworkAddressCIDRV6
    need (∀ nameservers ∈ config.get "dns.nameservers",
      inet.isListOf (fun s => (inet.parseIP s).isSome) nameservers = true) "Invalid dns.nameservers"
    pure (ip4OVNRanges, ip6OVNRanges)

def checkAddress (ranges : List IPRange × List IPRange) (addr : String) : Except String Unit :=
  match inet.parseIP addr with
  | none => .error "Invalid address"
  | some systemAddr => do
    need (¬ ranges.1.any (inet.containsIP · systemAddr))
      "UPLINK ipv4.ovn.ranges must not include system address"
    need (¬ ranges.2.any (inet.containsIP · systemAddr))
      "UPLINK ipv6.ovn.ranges must not include system address"

/-- The address of a system; our own is the handler's. -/
def InitConfig.addressOf (c : InitConfig) (systemName : String) (system : InitSystem) : String :=
  if systemName = c.name then c.address else system.address

def validateSystems (c : InitConfig) : Except String Unit :=
  if !c.bootstrap then .ok ()
  else do
    let ranges ← ovnRanges inet (((c.systems.get c.name).map (·.networks)).bind uplinkConfig)
    c.systems.forM fun e => checkAddress inet ranges (c.addressOf e.1 e.2)

/-! ### The cluster -/

structure Cluster where
  members : OrdMap String String
  uplink : Option (OrdMap String String)
  deriving DecidableEq

inductive Overlay
  | asked (answers : OVNAnswers)
  | preseeded (ovn : OVNConfig)
  | other (networks : List NetworksPost) (noUplink : uplinkConfig networks = none)

def Overlay.networks : Overlay → Except String (List NetworksPost)
  | .asked answers => do
    let ovn ← askOVNNetwork inet answers
    pure [(defaultOVNNetwork ovn).1, (defaultOVNNetwork ovn).2]
  | .preseeded ovn => do
    ovn.validate inet
    pure [(defaultOVNNetwork ovn).1, (defaultOVNNetwork ovn).2]
  | .other networks _ => .ok networks

/-- `setupCluster` of a new cluster: the networks of the bootstrap system, and every system as a
member. -/
def InitConfig.bootstrapped (c : InitConfig) : Cluster where
  members := c.systems.map fun e => (e.1, c.addressOf e.1 e.2)
  uplink := ((c.systems.get c.name).map (·.networks)).bind uplinkConfig

/-- A successful `init`, interactive or preseeded, from the systems that take part; `setup` is what
else may fail. -/
def runInit (name address : String) (peers : OrdMap String String) (overlay : Overlay)
    (setup : Except String Unit) : Except String Cluster := do
  let networks ← overlay.networks inet
  let c : InitConfig :=
    { name := name
      address := address
      bootstrap := true
      systems := (peers.set name address).map fun e => (e.1, ⟨e.2, if e.1 = name then networks else []⟩) }
  validateSystems inet c
  setup
  pure c.bootstrapped

inductive AddPath
  | interactive | preseed

/-- One `add`: the system it runs on, and the systems that were selected. -/
structure Add where
  path : AddPath
  name : String
  address : String
  systems : OrdMap String String
  setup : Except String Unit

def Add.checked (add : Add) (cluster : Cluster) : Except String Unit :=
  match add.path with
  | .interactive => need (add.systems ≠ []) "At least one new system has to be selected"
  | .preseed => do
    add.systems.forM fun e => do
      need (cluster.members.get e.1 = none) "System is already clustered"
      need (∀ member ∈ cluster.members, member.2 ≠ e.2) "System with address is already clustered"
    validateSystems inet
      { name := add.name
        address := add.address
        bootstrap := false
        systems := add.systems.map fun e => (e.1, ⟨e.2, []⟩) }

/-- A successful `add`: the systems join under names that no member has. -/
def runAdd (cluster : Cluster) (add : Add) : Except String Cluster := do
  add.checked inet cluster
  add.setup
  need (∀ e ∈ add.systems, cluster.members.get e.1 = none) "a member of that name exists"
  pure { cluster with members := cluster.members ++ add.systems }

end IncusCloud.Firecloud.Uplink
