import IncusCloud.Lib.Interleave
import IncusCloud.Lib.OrdMap
import Mathlib.Data.List.Infix
import Mathlib.Data.List.Sort

/-!
# The watchdog

`k8s/lib/self-heal.ts` and `k8s/lib/controller-health.ts`: any number of ticks, call by call, with
restarts that are requested and roll-outs that end. What a tick does between two of its awaits is
one step.

`rollingOut`, `history` and `seen` are history.
-/

namespace IncusCloud.Agent

open Lib

/-! ### Stale machines -/

structure MachineCondition where
  type : Option String
  status : Option String
  reason : Option String
  message : Option String
  lastTransitionTime : Option String

structure MachineObject where
  name : Option String
  labels : OrdMap String String
  deletionTimestamp : Option String
  phase : Option String
  conditions : List MachineCondition

structure StaleMachine where
  cluster : String
  machine : String
  /-- The condition that says so, e.g. APIServerPodHealthy. -/
  condition : String
  message : String
  since : String

def clusterLabel : String := "cluster.x-k8s.io/cluster-name"

def nonEmpty (v : Option String) : Option String := v.filter (· ≠ "")

section

-- `Date.parse`, in milliseconds; none: `NaN`.
variable (parse : String → Option ℤ)

/-- `/unreachable/i`. -/
def saysUnreachable (message : String) : Bool :=
  decide ("unreachable".toList <:+: message.toList.map Char.toLower)

/-- Cluster API has been unable to inspect the node for at least `minAgeMs`. -/
def uninspected (now minAgeMs : ℤ) (c : MachineCondition) : Bool :=
  c.status = some "Unknown" && c.reason = some "InspectionFailed" &&
    saysUnreachable (c.message.getD "") &&
    (c.lastTransitionTime.bind parse).any fun t => minAgeMs ≤ now - t

def turned (c : MachineCondition) : ℤ := (c.lastTransitionTime.bind parse).getD 0

def staleMachine (now minAgeMs : ℤ) (m : MachineObject) : Option StaleMachine :=
  if (nonEmpty m.deletionTimestamp).isSome ∨ m.phase = some "Deleting" then none
  else
    match nonEmpty (m.labels.get clusterLabel), nonEmpty m.name with
    | some cluster, some name =>
      let hits := (m.conditions.filter (uninspected parse now minAgeMs)).insertionSort fun a b =>
        turned parse a ≤ turned parse b
      hits.head?.map fun first =>
        ⟨cluster, name, first.type.getD "", first.message.getD "", first.lastTransitionTime.getD ""⟩
    | _, _ => none

/-- Machines on their way out are skipped: their nodes are expected to disappear. -/
def staleInspections (machines : List MachineObject) (now minAgeMs : ℤ) : List StaleMachine :=
  machines.filterMap (staleMachine parse now minAgeMs)

end

/-! ### The module's state -/

def staleAfterMs : ℕ := 5 * 60000
def cooldownMs : ℕ := 15 * 60000
/-- Restarts in a row that did not help before the watchdog stops trying. -/
def maxAttempts : ℕ := 2

structure ControllerRestart where
  began : ℕ
  reason : String
  automatic : Bool
  ok : Option Bool
  error : Option String

inductive HealEvent
  | restart (began : ℕ) (automatic : Bool) (rollingOut : ℕ)
  | calm
  deriving DecidableEq

def HealEvent.isRestart : HealEvent → Bool
  | restart _ _ _ => true
  | calm => false

structure Watch (ι : Type) where
  now : ℕ
  last : Option ControllerRestart
  restarting : Bool
  attempts : ℕ
  rollingOut : ℕ
  history : List HealEvent
  /-- How many restarts had begun when a tick read its guards. -/
  seen : ι → ℕ

namespace Watch

variable {ι : Type} (w : Watch ι)

def begun : ℕ := w.history.countP HealEvent.isRestart

/-- `restartControllers`; none: `RestartInProgress`. -/
def restartControllers (reason : String) (automatic : Bool) : Option (Watch ι) :=
  if w.restarting then none
  else
    some
      { w with
        restarting := true
        last := some ⟨w.now, reason, automatic, none, none⟩
        rollingOut := w.rollingOut + 1
        history := .restart w.now automatic w.rollingOut :: w.history }

def rolledOut (error : Option String) : Option (Watch ι) :=
  if w.rollingOut = 0 then none
  else
    some
      { w with
        restarting := false
        last := w.last.map fun l => { l with ok := some error.isNone, error := error }
        rollingOut := w.rollingOut - 1 }

def guardsHold : Bool := !w.restarting && !(w.last.any fun l => w.now - l.began < cooldownMs)

end Watch

/-! ### Ticks -/

inductive HealCall
  | readGuards
  | capnReady
  | listMachines
  /-- From there to the first `workloadAnswers`; none: the tick ends here. -/
  | judge (machines : List MachineObject)
  | workloadAnswers (cluster : String)
  /-- The attempt is counted and the controllers are restarted. -/
  | restart (m : StaleMachine)

def HealCall.Answer : HealCall → Type
  | readGuards => Bool
  | capnReady => Bool
  | listMachines => List MachineObject
  | judge _ => Option (List StaleMachine)
  | workloadAnswers _ => Bool
  | restart _ => Unit

structure HealOutcome where
  fails : Bool := false
  yes : Bool := true
  machines : List MachineObject := []

section

variable {ι : Type} [DecidableEq ι] (parse : String → Option ℤ)

/-- `Math.round` of the minutes since then. -/
def minutesSince (now : ℕ) (m : StaleMachine) : ℤ := (2 * (now - (parse m.since).getD 0) + 60000) / 120000

def restartReason (now : ℕ) (m : StaleMachine) : String :=
  m.machine ++ " of cluster " ++ m.cluster ++ " reported \"" ++ m.message ++ "\" for " ++
    toString (minutesSince parse now m) ++ " min while its API server answers"

def healAnswer (i : ι) (c : HealCall) (w : Watch ι) (o : HealOutcome) : Except Unit c.Answer × Watch ι :=
  match c with
  | .readGuards => (.ok w.guardsHold, { w with seen := Function.update w.seen i w.begun })
  | .capnReady => (if o.fails then .error () else .ok o.yes, w)
  | .listMachines => (if o.fails then .error () else .ok o.machines, w)
  | .judge machines =>
    let stale := staleInspections parse machines w.now staleAfterMs
    if stale = [] then (.ok none, { w with attempts := 0, history := .calm :: w.history })
    else if maxAttempts ≤ w.attempts then (.ok none, w)
    else (.ok (some stale), w)
  | .workloadAnswers _ => (.ok o.yes, w)
  | .restart m =>
    let w' := { w with attempts := w.attempts + 1 }
    match w'.restartControllers (restartReason parse w.now m) true with
    | none => (.error (), w')
    | some w'' => (.ok (), w'')

inductive HealAct
  | request (reason : String)
  | rolledOut (error : Option String)
  | delay (ms : ℕ)

def healAct (w : Watch ι) : HealAct → Option (Watch ι)
  | .request reason => w.restartControllers reason false
  | .rolledOut error => w.rolledOut error
  | .delay ms => some { w with now := w.now + ms }

def watchdog : Team ι HealCall HealCall.Answer Unit (Watch ι) HealOutcome HealAct :=
  ⟨fun i c w o => some (healAnswer parse i c w o), healAct⟩

end

abbrev Tick := Handler HealCall HealCall.Answer Unit Unit

namespace Tick

open Handler (call)

def readGuards : Tick Bool := call HealCall.readGuards
def capnReady : Tick Bool := call HealCall.capnReady
def listMachines : Tick (List MachineObject) := call HealCall.listMachines
def judge (machines : List MachineObject) : Tick (Option (List StaleMachine)) :=
  call (HealCall.judge machines)
def workloadAnswers (cluster : String) : Tick Bool := call (HealCall.workloadAnswers cluster)
def restart (m : StaleMachine) : Tick Unit := call (HealCall.restart m)

end Tick

open Tick
open Handler (when)

/-- A node the appliance cannot reach either is a real outage; the first cluster that answers has
the controllers restarted. -/
def heal (stale : List StaleMachine) : List String → Tick Unit
  | [] => pure ()
  | cluster :: clusters => do
    let answers ← workloadAnswers cluster
    if answers then
      (stale.find? fun s => s.cluster = cluster).elim (pure ()) Tick.restart
    else heal stale clusters

def tick : Tick Unit := do
  let go ← readGuards
  when go do
    let ready ← capnReady
    when ready do
      let machines ← listMachines
      let stale ← judge machines
      stale.elim (pure ()) fun stale => heal stale (stale.map (·.cluster)).eraseDups

/-- The ticks, none of which has begun; the agent has just started. -/
def allTicks (ι : Type) (now : ℕ) : Procs ι HealCall HealCall.Answer Unit (Watch ι) (Except Unit Unit × Unit) :=
  ⟨⟨now, none, false, 0, 0, [], fun _ => 0⟩, fun _ => tick ()⟩

end IncusCloud.Agent
