import IncusCloud.Lib.OrdMap
import Mathlib.Data.List.Sort
import Mathlib.Algebra.Order.Ring.Rat

/-!
# The balancing engine

`plan` of `balancing/engine.ts`: pins are enforced, anti-affinity groups spread, split affinity
groups gathered, and then the busiest member that can lower the spread gives up a guest or a whole
affinity group. The engine is written over the numbers and comparisons of its runtime, whatever
these are: they decide which moves are chosen, not which moves there may be.
-/

namespace IncusCloud.Balancing

open Lib

/-! ### The runtime -/

/-- JavaScript's numbers, and how it compares and prints. -/
class JsRuntime (N : Type) extends Zero N, Add N, Sub N, Mul N, Div N, Max N, Min N where
  hundred : N
  epsilon : N
  abs : N → N
  lt : N → N → Bool
  le : N → N → Bool
  same : N → N → Bool
  truthy : N → Bool
  toFixed1 : N → String
  localeCompare : String → String → ℤ

open JsRuntime

/-- `x.toFixed(1)` of an exact number: the nearest tenth, the larger one between two. -/
def toFixedRat (x : ℚ) : String :=
  let n := (|x| * 10 + 1 / 2).floor.toNat
  (if x < 0 then "-" else "") ++ toString (n / 10) ++ "." ++ toString (n % 10)

@[reducible]
def exact (localeCompare : String → String → ℤ) : JsRuntime ℚ where
  hundred := 100
  epsilon := 1 / 10 ^ 9
  abs x := |x|
  lt x y := x < y
  le x y := x ≤ y
  same x y := x = y
  truthy x := x ≠ 0
  toFixed1 := toFixedRat
  localeCompare := localeCompare

def utf16 (c : Char) : List ℕ :=
  if c.toNat < 0x10000 then [c.toNat]
  else [0xD800 + (c.toNat - 0x10000) / 0x400, 0xDC00 + (c.toNat - 0x10000) % 0x400]

/-- `a < b` of strings, which is by UTF-16 units. -/
def textLt (a b : String) : Bool := a.toList.flatMap utf16 < b.toList.flatMap utf16

/-! ### The input -/

inductive Method
  | memory
  | cpu
  | disk

inductive Mode
  | used
  | assigned

structure Resources (N : Type) where
  memory : N
  cpu : N
  disk : N

structure Member (N : Type) where
  name : String
  maintenance : Bool
  total : Resources N
  used : Resources N

structure Hints where
  affinity : Option String := none
  antiAffinity : Option String := none
  pin : Option (List String) := none
  balance : Option Bool := none

structure Guest (N : Type) where
  project : String
  name : String
  member : String
  movable : Bool
  used : Resources N
  assigned : Resources N
  hints : Hints

/-- What a `State` is made of: its members, guests and mode never change. -/
structure Fleet (N : Type) where
  members : List (Member N)
  guests : List (Guest N)
  mode : Mode

/-- `maxMoves` is an integer: the policy's column and its route take nothing else. -/
structure PlanInput (N : Type) extends Fleet N where
  method : Method
  balanciness : N
  maxMoves : ℤ

inductive MoveReason
  | pin
  | antiAffinity
  | affinity
  | balance
  deriving DecidableEq

structure Move where
  project : String
  name : String
  source : String
  target : String
  reason : MoveReason
  deriving DecidableEq

structure Plan (N : Type) where
  before : N
  after : N
  moves : List Move
  notes : List String

def given (x : Option String) : Option String := x.filter fun t => t ≠ ""

namespace Resources

variable {N : Type}

/-- `x[r]`. -/
def get (x : Resources N) : Method → N
  | .memory => x.memory
  | .cpu => x.cpu
  | .disk => x.disk

/-- `x[r] += y[r]` for all three. -/
def add [Add N] (x y : Resources N) : Resources N :=
  ⟨x.memory + y.memory, x.cpu + y.cpu, x.disk + y.disk⟩

/-- `x[r] -= y[r]` for all three. -/
def sub [Sub N] (x y : Resources N) : Resources N :=
  ⟨x.memory - y.memory, x.cpu - y.cpu, x.disk - y.disk⟩

end Resources

variable {N : Type}

def key (g : Guest N) : String := g.project ++ "/" ++ g.name

def Fleet.active (c : Fleet N) : List (Member N) := c.members.filter fun m => !m.maintenance

def Fleet.activeNames (c : Fleet N) : List String := c.active.map (·.name)

def Fleet.member? (c : Fleet N) (name : String) : Option (Member N) :=
  c.members.find? fun m => m.name = name

/-! ### The working state -/

/-- Each member's load, and where each guest is (`where`). -/
structure State (N : Type) where
  load : OrdMap String (Resources N)
  place : OrdMap String String

namespace State

variable {N : Type}

/-- `s.where.get(key(g))!`: every guest has its place. -/
def on (s : State N) (g : Guest N) : String := (s.place.get (key g)).getD ""

variable [JsRuntime N]

def initialLoad (mode : Mode) (m : Member N) : Resources N :=
  match mode with
  | .used => m.used
  | .assigned => ⟨0, 0, 0⟩

def assign (load : OrdMap String (Resources N)) (g : Guest N) : OrdMap String (Resources N) :=
  match load.get g.member with
  | some l => load.set g.member (l.add g.assigned)
  | none => load

/-- `new State(members, guests, mode)`. -/
def new (c : Fleet N) : State N where
  load :=
    let load := OrdMap.ofList (c.members.map fun m => (m.name, initialLoad c.mode m))
    match c.mode with
    | .used => load
    | .assigned => c.guests.foldl assign load
  place := OrdMap.ofList (c.guests.map fun g => (key g, g.member))

/-- `size`, for all three methods. -/
def sizes (c : Fleet N) (g : Guest N) : Resources N :=
  match c.mode with
  | .used => g.used
  | .assigned => g.assigned

def size (c : Fleet N) (g : Guest N) (r : Method) : N := (sizes c g).get r

/-- The sum of the sizes of `units`. -/
def sizeOf (c : Fleet N) (units : List (Guest N)) (r : Method) : N :=
  units.foldl (fun n g => n + size c g r) 0

def loadOf (s : State N) (member : String) (r : Method) : N :=
  ((s.load.get member).map (·.get r)).getD 0

def totalOf (c : Fleet N) (member : String) (r : Method) : N :=
  ((c.member? member).map (·.total.get r)).getD 0

def percent (c : Fleet N) (s : State N) (member : String) (r : Method) : N :=
  if lt 0 (totalOf c member r) then s.loadOf member r / totalOf c member r * hundred else 0

/-- `spread`: the highest percentage of an active member minus the lowest. -/
def spread (c : Fleet N) (s : State N) (r : Method) : N :=
  match c.activeNames.map fun m => s.percent c m r with
  | [] => 0
  | p :: ps => ps.foldl max p - ps.foldl min p

def move (c : Fleet N) (s : State N) (g : Guest N) (target : String) : State N where
  load :=
    let load := match s.load.get (s.on g) with
      | some l => s.load.set (s.on g) (l.sub (sizes c g))
      | none => s.load
    match load.get target with
    | some l => load.set target (l.add (sizes c g))
    | none => load
  place := s.place.set (key g) target

/-- `fits`: at most the whole of the member's capacity. -/
def fits (c : Fleet N) (s : State N) (units : List (Guest N)) (target : String) (r : Method) :
    Bool :=
  le (s.loadOf target r + sizeOf c units r) (totalOf c target r)

/-- `antiConflict`: others of `g`'s anti-affinity group on `member`. Guests have distinct keys, so
another guest is one of another key. -/
def antiConflict (c : Fleet N) (s : State N) (g : Guest N) (member : String)
    (ignore : List String := []) : Bool :=
  match given g.hints.antiAffinity with
  | none => false
  | some group =>
    c.guests.any fun o => key o ≠ key g && !ignore.contains (key o) && o.project = g.project &&
      o.hints.antiAffinity = some group && s.on o = member

end State

/-- `spread` of members with guests where they are now. -/
def spread [JsRuntime N] (c : Fleet N) (r : Method) : N := (State.new c).spread c r

end IncusCloud.Balancing
