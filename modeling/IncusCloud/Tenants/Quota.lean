import Mathlib.Algebra.BigOperators.Group.List.Basic
import Mathlib.Algebra.GroupWithZero.Nat

/-!
# Quotas

`tenants/quota.ts`: what a project uses or may use, in counts, CPUs and bytes.
-/

namespace IncusCloud.Tenants

inductive QuotaKey
  | instances | cpu | memory | disk
  deriving DecidableEq

namespace QuotaKey

def text : QuotaKey → String
  | .instances => "instances"
  | .cpu => "cpu"
  | .memory => "memory"
  | .disk => "disk"

def inGiB : QuotaKey → Bool
  | .memory | .disk => true
  | _ => false

end QuotaKey

def quotaKeys : List QuotaKey := [.instances, .cpu, .memory, .disk]

def gib : ℕ := 1024 ^ 3

def Usage : Type := QuotaKey → ℕ

def Limits : Type := QuotaKey → Option ℕ

/-- A tenant's quotas, of the keys its projects share. -/
def Quotas : Type := QuotaKey → Option ℕ

def quotaBytes (q : Quotas) : Limits := fun k => (q k).map fun n => if k.inGiB then n * gib else n

/-- Total usage over placements; an unknown usage counts as none. -/
def sumUsage (usages : List (Option Usage)) : Usage := fun k =>
  (usages.map fun u => u.elim 0 (· k)).sum

/-- Each placement's limits under the tenant's quota: its own usage plus all of the tenant's free
headroom. -/
def splitLimits (q : Quotas) (usages : List (Option Usage)) : List Limits :=
  let total := sumUsage usages
  usages.map fun u k => (quotaBytes q k).map fun n => u.elim 0 (· k) + (n - total k)

/-- `(n / GiB).toFixed(1)` for what is kept in GiB. -/
def showAmount (k : QuotaKey) (n : ℕ) : String :=
  if k.inGiB then
    let tenths := (20 * n + gib) / (2 * gib)
    toString (tenths / 10) ++ "." ++ toString (tenths % 10)
  else toString n

/-- What `request` on top of `used` would exceed. -/
def exceeds (q : Quotas) (used request : Usage) : List String :=
  quotaKeys.filterMap fun k =>
    match quotaBytes q k, q k with
    | some n, some given =>
      if request k = 0 then none
      else if used k + request k > n then
        some (k.text ++ ": " ++ showAmount k (used k + request k) ++ " of " ++ toString given ++
          (if k.inGiB then " GiB" else ""))
      else none
    | _, _ => none

end IncusCloud.Tenants
