import IncusCloud.Agent.ClusterPatch

/-!
# Addresses

The pure part of the Kubernetes agent's `lib/metallb.ts`: IPv4 addresses and ranges of them as they
are written, which of them overlap, and which block of a network is free.
-/

namespace IncusCloud.Agent

open Lib

/-! ### IPv4 -/

def octet (s : List Char) : Option ℕ :=
  if isDigits s && s.length ≤ 3 && decimal s ≤ 255 then some (decimal s) else none

def ipToInt (ip : String) : Option ℕ :=
  match ((trim ip.toList).splitOn '.').mapM octet with
  | some [a, b, c, d] => some (((a * 256 + b) * 256 + c) * 256 + d)
  | _ => none

def intToIp (n : ℕ) : String := join '.' ([24, 16, 8, 0].map fun shift => toString (n / 2 ^ shift % 256))

structure IpRange where
  start : ℕ
  stop : ℕ
  le : start ≤ stop
  deriving DecidableEq

def IpRange.single (n : ℕ) : IpRange := ⟨n, n, Nat.le_refl n⟩

def IpRange.block (base bits : ℕ) : IpRange where
  start := base / 2 ^ (32 - bits) * 2 ^ (32 - bits)
  stop := base / 2 ^ (32 - bits) * 2 ^ (32 - bits) + (2 ^ (32 - bits) - 1)
  le := Nat.le_add_right _ _

def firstTwo (sep : Char) (s : List Char) : String × String :=
  let fields := s.splitOn sep
  (String.ofList (fields[0]?.getD []), String.ofList (fields[1]?.getD []))

/-- "a.b.c.d-e.f.g.h", "a.b.c.d/nn" or a single address. -/
def parseRange (value : String) : Option IpRange :=
  let text := trim value.toList
  if '-' ∈ text then
    let (a, b) := firstTwo '-' text
    match ipToInt a, ipToInt b with
    | some start, some stop => if h : start ≤ stop then some ⟨start, stop, h⟩ else none
    | _, _ => none
  else if '/' ∈ text then
    let (ip, bits) := firstTwo '/' text
    match ipToInt ip, wholeNumber (trim bits.toList) with
    | some base, some bits => if 0 ≤ bits ∧ bits ≤ 32 then some (.block base bits.toNat) else none
    | _, _ => none
  else (ipToInt (String.ofList text)).map IpRange.single

def overlaps (a b : IpRange) : Bool := a.start ≤ b.stop && b.start ≤ a.stop

/-! ### Requests -/

structure MetalLBRequest where
  addresses : List String
  some : addresses ≠ []
  few : addresses.length ≤ 16
  valid : ∀ a ∈ addresses, (parseRange a).isSome = true
  deriving DecidableEq

/-! ### Suggestions -/

structure NetworkFacts where
  cidr : String
  /-- `ipv4.dhcp.ranges` and `ipv4.ovn.ranges`. -/
  reserved : List String
  /-- Addresses already leased or assigned on the network. -/
  used : List String

structure Suggestion where
  range : Option String
  subnet : String
  warning : Option String

def parseRanges (values : List String) : List IpRange := values.filterMap parseRange

/-- The highest block of `size` addresses above `low` that avoids the blocked ranges, downwards from
`stop`. -/
def findBlock (blocked : List IpRange) (size low : ℕ) : ℕ → ℕ → Option IpRange
  | 0, _ => none
  | fuel + 1, stop =>
    if h : 0 < size ∧ low + size ≤ stop then
      let candidate : IpRange := ⟨stop + 1 - size, stop, by omega⟩
      match blocked.find? fun b => overlaps b candidate with
      | none => some candidate
      | some hit => findBlock blocked size low fuel (min stop hit.start - 1)
    else none

/-- What a suggestion has to avoid: the network's own addresses and the gateway, the DHCP and OVN
ranges, what the network does not know is taken, and what is in use. -/
def blockedRanges (facts : NetworkFacts) (taken : List String) (subnet : IpRange) (gateway : ℕ) : List IpRange :=
  [.single subnet.start, .single subnet.stop, .single gateway] ++
    facts.reserved.flatMap (fun r => parseRanges (split ',' r)) ++ parseRanges taken ++
      (facts.used.filterMap ipToInt).map .single

def suggestRange (facts : NetworkFacts) (taken : List String) (size : ℕ) : Suggestion :=
  match parseRange facts.cidr, ipToInt (firstTwo '/' facts.cidr.toList).1 with
  | some subnetRange, some gateway =>
    let fields := split '/' facts.cidr
    let subnet := intToIp subnetRange.start ++ "/" ++ (fields[1]?.getD "32")
    let dhcp := facts.reserved.flatMap fun r => parseRanges (split ',' r)
    match findBlock (blockedRanges facts taken subnetRange gateway) size subnetRange.start subnetRange.stop
      (subnetRange.stop - 1) with
    | some candidate =>
      { range := some (intToIp candidate.start ++ "-" ++ intToIp candidate.stop)
        subnet := subnet
        warning :=
          if dhcp = [] then
            some ("the network has no ipv4.dhcp.ranges, so its DHCP server may lease these addresses too; " ++
              "restrict ipv4.dhcp.ranges to keep them apart")
          else none }
    | none => ⟨none, subnet, some ("no free block of " ++ toString size ++ " addresses in " ++ subnet)⟩
  | _, _ => ⟨none, facts.cidr, some "the network has no IPv4 subnet"⟩

/-- The highest free address, for a cluster's API endpoint. -/
def pickAddress (facts : NetworkFacts) (taken : List String) : Option String :=
  (suggestRange facts taken 1).range.map fun range => (firstTwo '-' range.toList).1

/-- Entries of `addresses` that overlap any of `taken`. -/
def overlapping (addresses taken : List String) : List String :=
  addresses.filter fun a => (parseRange a).any fun r => (parseRanges taken).any fun t => overlaps r t

def outsideSubnet (addresses : List String) (cidr : String) : List String :=
  match parseRange cidr with
  | none => []
  | some subnet =>
    addresses.filter fun a => !(parseRange a).any fun r => subnet.start ≤ r.start && r.stop ≤ subnet.stop

end IncusCloud.Agent
