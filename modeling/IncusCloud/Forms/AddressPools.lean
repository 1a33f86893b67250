import IncusCloud.Agent.ClusterPatch
import IncusCloud.Lib.Pattern

/-!
# Address pools in a form

The UI's `util/k8s/metallb.ts`: why a list of MetalLB address ranges, separated by commas and
spaces, is unusable.
-/

namespace IncusCloud.Forms

open Lib RegularExpression
open Agent (isSpace)

def octetPattern : RegularExpression Char :=
  .char '2' * (.char '5' * oneOf "012345".toList) + .char '2' * (oneOf "01234".toList * digit) +
    optionally (.char '1') * (optionally digit * digit)

def ipv4 : RegularExpression Char :=
  octetPattern * (.char '.' * (octetPattern * (.char '.' * (octetPattern * (.char '.' * octetPattern)))))

def prefixLength : RegularExpression Char := .char '3' * oneOf "012".toList + optionally (oneOf "12".toList) * digit

def entryPattern : RegularExpression Char := ipv4 * optionally (.char '-' * ipv4 + .char '/' * prefixLength)

/-- `toInt`; it is asked of what `IPV4` has matched. -/
def toInt (ip : List Char) : ℕ := (ip.splitOn '.').foldl (fun acc octet => acc * 256 + decimal octet) 0

def entriesOf (value : String) : List (List Char) :=
  ((value.toList.splitOnP fun ch => ch = ',' || isSpace ch).map Agent.trim).filter (· ≠ [])

def entryError (entry : List Char) : Option String :=
  if !entryPattern.rmatch entry then
    some (String.ofList entry ++ " is not an IPv4 range (a.b.c.d-e.f.g.h), CIDR or address")
  else if '-' ∈ entry then
    let fields := entry.splitOn '-'
    if toInt (fields[1]?.getD []) < toInt (fields[0]?.getD []) then
      some (String.ofList entry ++ " ends before it starts")
    else none
  else none

/-- Why a comma/space separated list of ranges is unusable. -/
def metallbAddressesError (value : String) : Option String :=
  if entriesOf value = [] then some "Enter at least one address range" else (entriesOf value).findSome? entryError

end IncusCloud.Forms
