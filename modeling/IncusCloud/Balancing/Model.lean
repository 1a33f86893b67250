import IncusCloud.Lib.Double
import IncusCloud.Lib.OrdMap

/-!
# What a guest was assigned

`balancing/model.ts`: the limits of a guest as the balancer reads them.
-/

namespace IncusCloud.Balancing

open Lib

def units : OrdMap (List Char) ℕ :=
  [([], 1), ("B".toList, 1), ("kB".toList, 1000), ("MB".toList, 1000 ^ 2), ("GB".toList, 1000 ^ 3),
    ("TB".toList, 1000 ^ 4), ("KiB".toList, 1024), ("MiB".toList, 1024 ^ 2), ("GiB".toList, 1024 ^ 3),
    ("TiB".toList, 1024 ^ 4)]

/-- `[kMGT]i?B|B`. -/
def sizeUnit : RegularExpression Char :=
  oneOf "kMGT".toList * (optionally (.char 'i') * .char 'B') + .char 'B'

/-- A size as Incus writes it; a percentage or anything else is unknown. -/
def bytesOf (v : List Char) : Option Double :=
  match readQuantity sizeUnit (stripSpaces v) with
  | none => none
  | some (n, name) => (units.get name).map fun unit : ℕ => ((Double.ofText n).mul (.ofRat unit)).round

/-- `^(\d+)(?:-(\d+))?$`. -/
def readCpus (part : List Char) : Option (List Char × Option (List Char)) :=
  let first := part.takeWhile Char.isDigit
  match part.dropWhile Char.isDigit with
  | [] => if first ≠ [] then some (first, none) else none
  | '-' :: last => if first ≠ [] ∧ last ≠ [] ∧ last.all Char.isDigit = true then some (first, some last) else none
  | _ => none

def cpusOfPart (r : List Char × Option (List Char)) : Double :=
  match r.2 with
  | some last => ((Double.ofText last).sub (Double.ofText r.1)).add (.num 1)
  | none => .num 1

def cpusOf (v : List Char) : Option Double :=
  let s := stripSpaces v
  if s = [] then none
  else if s.all Char.isDigit = true then some (Double.ofText s)
  else
    (s.splitOn ',').foldlM
      (fun n part => (readCpus (stripSpaces part)).map fun r => n.add (cpusOfPart r)) (.num 0)

end IncusCloud.Balancing
