import IncusCloud.Lib.Double

/-!
# What a user has of a tenant

`tenants/limits.ts`: sizes as the inventory keeps them, and what a user's instances and creates come
to.
-/

namespace IncusCloud.Tenants

open Lib
open Double (ofText sumOf)

/-- `[KMGTP]i?B?`, in either case. -/
def sizeUnit : RegularExpression Char :=
  oneOf "KMGTPkmgtp".toList * (optionally (oneOf "Ii".toList) * optionally (oneOf "Bb".toList))

def bytesOf (v : Option (List Char)) : Double :=
  match readQuantity sizeUnit (v.getD []) with
  | none => .num 0
  | some (n, name) =>
    let unit := name.map Char.toUpper
    let pow := (indexOf "KMGTP".toList unit.head?.toList + 1).toNat
    ((ofText n).mul (.ofRat ((if 'I' ∈ unit then 1024 else 1000) ^ pow : ℕ))).round

structure OwnedInstance where
  cpu : List Char
  memory : List Char

structure PendingCreate where
  cpu : Option Double
  memory : Option Double

/-- `Required<UserQuotas>`. -/
structure UserUsage where
  instances : ℕ
  cpu : Double
  memory : Double
  backups : ℕ

/-- What is counted for a `limits.cpu`: `Number(i.cpu) || 0`. -/
def cpuCount (cpu : List Char) : Double := (ofText cpu).or (.num 0)

/-- What is counted for a number of a payload: `Number(n) || 0`. -/
def payloadCount (n : Option Double) : Double := (n.getD .nan).or (.num 0)

/-- `userUsage`, of what its three queries answer. -/
def userUsage (owned : List OwnedInstance) (pending : List PendingCreate) (b : Option ℕ) : UserUsage where
  instances := owned.length + pending.length
  cpu := (sumOf (cpuCount ·.cpu) owned).add (sumOf (payloadCount ·.cpu) pending)
  memory := (sumOf (bytesOf <| some ·.memory) owned).add (sumOf (payloadCount ·.memory) pending)
  backups := b.getD 0

end IncusCloud.Tenants
