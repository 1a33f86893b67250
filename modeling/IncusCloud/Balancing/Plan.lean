import IncusCloud.Balancing.Engine

/-!
# Planning

`plan` itself: what it works on, the moves it may make, and its four phases. The loops of the
source are folds; the last one, `for (;;)`, takes fuel, one unit for each guest and one to stop.
-/

namespace IncusCloud.Balancing

open Lib
open JsRuntime

variable {N : Type} [JsRuntime N]

/-- What the phases share: the state, the moves and notes so far, the keys moved, and whether the
plan was stopped by `maxMoves`. -/
structure Work (N : Type) where
  state : State N
  moves : List Move
  notes : List String
  moved : List String
  capped : Bool

namespace Work

def note (w : Work N) (text : String) : Work N := { w with notes := w.notes ++ [text] }

/-- `allowed`: may `g` be moved by this plan, and to which members. -/
def allowed (i : PlanInput N) (w : Work N) (g : Guest N) : List String :=
  if g.movable = false ∨ g.hints.balance = some false ∨ key g ∈ w.moved then []
  -- Guests on members in maintenance are Incus's evacuation to handle.
  else if (i.member? (w.state.on g)).any (·.maintenance) then []
  else i.activeNames.filter fun m =>
    m ≠ w.state.on g && ((g.hints.pin.getD []).isEmpty || (g.hints.pin.getD []).contains m)

/-- `record`: moves `g`, unless the plan has all its moves; and whether it did. -/
def record (i : PlanInput N) (w : Work N) (g : Guest N) (target : String) (reason : MoveReason) :
    Bool × Work N :=
  if (w.moves.length : ℤ) ≥ i.maxMoves then (false, { w with capped := true })
  else
    (true,
      { w with
        moves := w.moves ++ [⟨g.project, g.name, w.state.on g, target, reason⟩]
        state := w.state.move i.toFleet g target
        moved := key g :: w.moved })

end Work

/-- `d || a.localeCompare(b)` is not above zero: `a` may stand before `b`. -/
def before (d : N) (a b : String) : Bool :=
  if truthy d then lt d 0 else localeCompare N a b ≤ 0

/-- `leastLoaded`: the allowed target for `g` with the lowest load that fits and keeps
anti-affinity. -/
def leastLoaded (i : PlanInput N) (s : State N) (g : Guest N) (targets : List String) :
    Option String :=
  ((targets.filter fun t => s.fits i.toFleet [g] t i.method && !s.antiConflict i.toFleet g t).insertionSort
    fun a b => before (s.percent i.toFleet a i.method - s.percent i.toFleet b i.method) a b).head?

/-- `guests`: in the order of their keys. -/
def sortedGuests (i : PlanInput N) : List (Guest N) :=
  i.guests.insertionSort fun a b => localeCompare N (key a) (key b) ≤ 0

def groupBy (f : Guest N → String) (gs : List (Guest N)) : OrdMap String (List (Guest N)) :=
  gs.foldl (fun m g => m.push (f g) g) []

/-! ### Pins -/

def pinGuest (i : PlanInput N) (w : Work N) (g : Guest N) : Work N :=
  let pin := g.hints.pin.getD []
  if pin.isEmpty || pin.contains (w.state.on g) then w
  else
    match given (leastLoaded i w.state g (w.allowed i g)) with
    | some target => (w.record i g target .pin).2
    | none =>
      w.note (key g ++ " is pinned to " ++ ", ".intercalate pin ++ " but cannot go there now")

def pins (i : PlanInput N) (w : Work N) : Work N := (sortedGuests i).foldl (pinGuest i) w

/-! ### Anti-affinity -/

/-- One guest of an anti-affinity group, and the members its group is `seen` on so far. -/
def spreadGuest (i : PlanInput N) (acc : Work N × List String) (g : Guest N) :
    Work N × List String :=
  let (w, seen) := acc
  if seen.contains (w.state.on g) then
    match given (leastLoaded i w.state g ((w.allowed i g).filter fun t => !seen.contains t)) with
    | some target =>
      match w.record i g target .antiAffinity with
      | (true, w) => (w, target :: seen)
      | (false, w) => (w, seen)
    | none => (w, seen)
  else (w, w.state.on g :: seen)

def spreadGroup (i : PlanInput N) (w : Work N) (members : List (Guest N)) : Work N :=
  let name := (members.head?.bind (·.hints.antiAffinity)).getD ""
  let project := (members.head?.map (·.project)).getD ""
  let w :=
    if members.length > i.activeNames.length then
      w.note ("Anti-affinity group \"" ++ name ++ "\" in " ++ project ++ " has " ++
        toString members.length ++ " instances but only " ++ toString i.activeNames.length ++
        " members")
    else w
  (members.foldl (spreadGuest i) (w, [])).1

def antiGroups (i : PlanInput N) : OrdMap String (List (Guest N)) :=
  groupBy (fun g => g.project ++ "/" ++ g.hints.antiAffinity.getD "")
    ((sortedGuests i).filter fun g => (given g.hints.antiAffinity).isSome)

def antiAffinity (i : PlanInput N) (w : Work N) : Work N :=
  (antiGroups i).foldl (fun w group => spreadGroup i w group.2) w

/-! ### Affinity -/

/-- `count`: how many of a group are on each member. -/
def countOn (s : State N) (members : List (Guest N)) : OrdMap String ℕ :=
  members.foldl (fun count g => count.set (s.on g) ((count.get (s.on g)).getD 0 + 1)) []

/-- `home`: the active member most of the group is on. -/
def home (i : PlanInput N) (count : OrdMap String ℕ) : Option String :=
  ((count.filter fun e => i.activeNames.contains e.1).insertionSort fun a b =>
    if b.2 ≠ a.2 then b.2 < a.2 else localeCompare N a.1 b.1 ≤ 0).head?.map (·.1)

def gatherGuest (i : PlanInput N) (home : String) (w : Work N) (g : Guest N) : Work N :=
  if w.state.on g = home then w
  else if (w.allowed i g).contains home && w.state.fits i.toFleet [g] home i.method &&
      !w.state.antiConflict i.toFleet g home then
    (w.record i g home .affinity).2
  else
    w.note (key g ++ " could not join its affinity group \"" ++ g.hints.affinity.getD "" ++
      "\" on " ++ home)

def gatherGroup (i : PlanInput N) (w : Work N) (members : List (Guest N)) : Work N :=
  let count := countOn w.state members
  if count.length < 2 then w
  else
    match given (home i count) with
    | none => w
    | some home => members.foldl (gatherGuest i home) w

def affGroups (i : PlanInput N) : OrdMap String (List (Guest N)) :=
  groupBy (fun g => g.project ++ "/" ++ g.hints.affinity.getD "")
    ((sortedGuests i).filter fun g => (given g.hints.affinity).isSome)

def affinity (i : PlanInput N) (w : Work N) : Work N :=
  (affGroups i).foldl (fun w group => gatherGroup i w group.2) w

/-! ### Balance -/

/-- The guest is on `source` and may leave it. -/
def mayLeave (i : PlanInput N) (w : Work N) (source : String) (g : Guest N) : Bool :=
  w.state.on g = source && !(w.allowed i g).isEmpty

/-- The affinity group of `g`. -/
def affinityGroup (i : PlanInput N) (g : Guest N) : List (Guest N) :=
  (sortedGuests i).filter fun o => o.project = g.project && o.hints.affinity = g.hints.affinity

/-- One guest of `here`: its unit, unless it has it already or its group cannot leave whole. -/
def addUnit (i : PlanInput N) (w : Work N) (source : String)
    (acc : List (List (Guest N)) × List String) (g : Guest N) :
    List (List (Guest N)) × List String :=
  let (units, seen) := acc
  if seen.contains (key g) then (units, seen)
  else if (given g.hints.affinity).isSome then
    if (affinityGroup i g).all (mayLeave i w source) then
      (units ++ [affinityGroup i g], (affinityGroup i g).map key ++ seen)
    else (units, seen)
  else (units ++ [[g]], key g :: seen)

/-- `units`: the guests, or whole affinity groups, that may leave `source`. -/
def unitsOn (i : PlanInput N) (w : Work N) (source : String) : List (List (Guest N)) :=
  (((sortedGuests i).filter (mayLeave i w source)).foldl (addUnit i w source) ([], [])).1

structure Best (N : Type) where
  unit : List (Guest N)
  target : String
  spread : N
  size : N

/-- `key(unit[0]!)`. -/
def firstKey (unit : List (Guest N)) : String := (unit.head?.map key).getD ""

def better (best : Option (Best N)) (b : Best N) : Bool :=
  match best with
  | none => true
  | some a =>
    lt b.spread (a.spread - epsilon) ||
      (lt (JsRuntime.abs (b.spread - a.spread)) epsilon &&
        (lt a.size b.size || (same b.size a.size && textLt (firstKey b.unit) (firstKey a.unit))))

def moveAll (c : Fleet N) (s : State N) (unit : List (Guest N)) (target : String) : State N :=
  unit.foldl (fun s g => s.move c g target) s

def tryTarget (i : PlanInput N) (source : String) (current : N) (unit : List (Guest N))
    (acc : Option (Best N) × State N) (target : String) : Option (Best N) × State N :=
  let (best, s) := acc
  if !s.fits i.toFleet unit target i.method ||
      unit.any (fun g => s.antiConflict i.toFleet g target (unit.map key)) then (best, s)
  else
    let there := moveAll i.toFleet s unit target
    let after := there.spread i.toFleet i.method
    let back := moveAll i.toFleet there unit source
    if le (current - epsilon) after then (best, back)
    else
      let b := ⟨unit, target, after, State.sizeOf i.toFleet unit i.method⟩
      (if better best b then some b else best, back)

/-- `targets`: where every guest of the unit may go. -/
def targetsOf (i : PlanInput N) (w : Work N) (unit : List (Guest N)) : List String :=
  i.activeNames.filter fun t => unit.all fun g => (w.allowed i g).contains t

def tryUnit (i : PlanInput N) (w : Work N) (source : String) (current : N)
    (acc : Option (Best N) × State N) (unit : List (Guest N)) : Option (Best N) × State N :=
  (targetsOf i { w with state := acc.2 } unit).foldl (tryTarget i source current unit) acc

/-- `bestMove`: the move of a unit off `source` that leaves the lowest spread, if any improves on
`current`; and the state after all was tried. -/
def bestMove (i : PlanInput N) (w : Work N) (source : String) (current : N) :
    Option (Best N) × State N :=
  (unitsOn i w source).foldl (tryUnit i w source current) (none, w.state)

/-- `sources`: the busiest member first. -/
def sources (i : PlanInput N) (s : State N) : List String :=
  i.activeNames.insertionSort fun a b =>
    before (s.percent i.toFleet b i.method - s.percent i.toFleet a i.method) a b

def firstBest (i : PlanInput N) (current : N) : Work N → List String → Option (Best N) × Work N
  | w, [] => (none, w)
  | w, source :: rest =>
    match bestMove i w source current with
    | (some b, s) => (some b, { w with state := s })
    | (none, s) => firstBest i current { w with state := s } rest

def recordAll (i : PlanInput N) (w : Work N) (unit : List (Guest N)) (target : String)
    (reason : MoveReason) : Work N :=
  unit.foldl (fun w g => (w.record i g target reason).2) w

def balance (i : PlanInput N) : ℕ → Work N → Option (Work N)
  | 0, _ => none
  | fuel + 1, w =>
    let current := w.state.spread i.toFleet i.method
    if le current i.balanciness || w.capped then some w
    else
      match firstBest i current w (sources i w.state) with
      | (none, w) =>
        some (w.note ("No move improves the balance further (" ++ toFixed1 current ++
          " points of spread left)"))
      | (some b, w) =>
        if ((w.moves.length + b.unit.length : ℕ) : ℤ) > i.maxMoves then
          some { w with capped := true }
        else balance i fuel (recordAll i w b.unit b.target .balance)

/-! ### The plan -/

def Work.start (i : PlanInput N) : Work N := ⟨State.new i.toFleet, [], [], [], false⟩

def Work.close (w : Work N) : Work N :=
  if w.capped then
    w.note ("Stopped after " ++ toString w.moves.length ++ " moves (the policy's maximum)")
  else w

def hints (i : PlanInput N) : Work N := affinity i (antiAffinity i (pins i (.start i)))

def plan (i : PlanInput N) : Option (Plan N) :=
  (balance i (i.guests.length + 1) (hints i)).map fun w =>
    { before := (State.new i.toFleet).spread i.toFleet i.method
      after := w.close.state.spread i.toFleet i.method
      moves := w.close.moves
      notes := w.close.notes }

end IncusCloud.Balancing
