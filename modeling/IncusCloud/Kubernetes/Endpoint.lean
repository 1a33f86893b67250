import IncusCloud.Lib.Interleave
import IncusCloud.Lib.OrdMap

/-!
# The forward to a workload cluster's API

`k8s/endpoint.ts`: `ensureForward` and `removeForward`. The workload clusters whose API is reached
at one address share one forward of the network; each has a port in it, marked with its id. Every
call reads the forward and writes the whole list of ports back.

The calls for one cluster (by its create job, its delete job and the sync worker) come one after the
other; those for different clusters interleave. `writes` and `readAt` are history.
-/

namespace IncusCloud.Kubernetes

open Lib

structure Port where
  description : String
  protocol : String
  listenPort : String
  targetPort : String
  targetAddress : String
  added : OrdMap String String
  deriving DecidableEq

structure Forward where
  description : String
  config : OrdMap String String
  ports : List Port

structure ForwardSpec where
  network : String
  member : String
  host : String
  port : ℕ
  target : String
  /-- The workload cluster's id, which marks our port in a shared forward. -/
  id : String

def forwardDescription : String := "IncusCloud Kubernetes endpoints"
def portDescription (id : String) : String := "incuscloud k8s " ++ id
def apiPort : String := "6443"

variable (f : ForwardSpec)

def ForwardSpec.ours : Port :=
  ⟨portDescription f.id, "tcp", toString f.port, apiPort, f.target, []⟩

/-- Field by field: Incus orders them its own way and adds some. -/
def Port.same (ours p : Port) : Bool :=
  p.description = ours.description && p.protocol = ours.protocol && p.listenPort = ours.listenPort &&
    p.targetPort = ours.targetPort && p.targetAddress = ours.targetAddress

/-! ### Incus -/

inductive ForwardCall
  | get
  | post (forward : Forward)
  | put (forward : Forward)
  | delete

def ForwardCall.Answer : ForwardCall → Type
  | get => Forward
  | _ => Unit

inductive ForwardError
  | failed
  | cluster (status : ℕ)
  | api (status : ℕ) (code message : String)
  deriving DecidableEq

structure Address where
  forward : Option Forward
  writes : ℕ
  /-- How often it had been when a cluster's call last read it. -/
  readAt : String → ℕ

/-- How a request goes: it may fail, before or after it took effect. -/
structure ForwardOutcome where
  fails : Bool
  took : Bool

namespace Address

variable (w : Address)

def ports : List Port := (w.forward.map (·.ports)).getD []

/-- A call of cluster `i` has read the forward. -/
def read (i : String) : Address :=
  { w with readAt := Function.update w.readAt i w.writes }

def write (f : Option Forward) : Address :=
  { w with forward := f, writes := w.writes + 1 }

/-- A request that changes the forward to `f`. -/
def change (f : Option Forward) (o : ForwardOutcome) : Except ForwardError Unit × Address :=
  if o.fails then (.error .failed, if o.took then w.write f else w) else (.ok (), w.write f)

/-- What Incus answers to a request of cluster `i`. -/
def answer (i : String) (c : ForwardCall) (w : Address) (o : ForwardOutcome) :
    Except ForwardError c.Answer × Address :=
  match c with
  | .get =>
    if o.fails then (.error .failed, w)
    else
      match w.forward with
      | some f => (.ok f, w.read i)
      | none => (.error (.cluster 404), w.read i)
  | .post f =>
    match w.forward with
    | none => w.change (some f) o
    | some _ => (.error (.cluster 409), w)
  | .put f =>
    match w.forward with
    | some _ => w.change (some f) o
    | none => (.error (.cluster 404), w)
  | .delete =>
    match w.forward with
    | some _ => w.change none o
    | none => (.error (.cluster 404), w)

end Address

/-- The workload clusters of the address; nobody else writes its forward. -/
def forwarding :
    Team String ForwardCall ForwardCall.Answer ForwardError Address ForwardOutcome Empty :=
  ⟨fun i c w o => some (Address.answer i c w o), fun _ x => x.elim⟩

/-! ### The calls -/

abbrev Forwarding := Handler ForwardCall ForwardCall.Answer ForwardError Unit

namespace Forwarding

open Handler (call)

def get : Forwarding Forward := call ForwardCall.get
def post (f : Forward) : Forwarding Unit := call (ForwardCall.post f)
def put (f : Forward) : Forwarding Unit := call (ForwardCall.put f)
def delete : Forwarding Unit := call ForwardCall.delete

end Forwarding

def getForward : Forwarding (Option Forward) :=
  tryCatch
    (do
      let f ← Forwarding.get
      pure (some f))
    fun e => if e = .cluster 404 then pure none else throw e

inductive ForwardChange
  | created | updated | unchanged

def placePort (ours : Port) (ports : List Port) : List Port :=
  match ports.findIdx? fun p => p.description = ours.description with
  | some i => ports.set i ours
  | none => ports ++ [ours]

def createForward : Forwarding ForwardChange := do
  Forwarding.post ⟨forwardDescription, [], [f.ours]⟩
  pure .created

def clashing (ours : Port) (ports : List Port) : Option Port :=
  ports.find? fun p => p.listenPort = ours.listenPort && p.description ≠ ours.description

def portInUse (clash : Port) : ForwardError :=
  .api 409 "port_in_use" ("Port " ++ toString f.port ++ " on " ++ f.host ++ " is already forwarded (" ++
    (if clash.description = "" then "not by IncusCloud" else clash.description) ++ ")")

/-- Only the port marked as this cluster's is added or changed. -/
def updateForward (existing : Forward) : Forwarding ForwardChange :=
  match clashing f.ours existing.ports with
  | some clash => throw (portInUse f clash)
  | none =>
    if (existing.ports.find? fun p => p.description = f.ours.description).any f.ours.same then
      pure .unchanged
    else do
      Forwarding.put ⟨existing.description, existing.config, placePort f.ours existing.ports⟩
      pure .updated

/-- Forwards host:port to the load balancer's API port. -/
def ensureForward : Forwarding ForwardChange := do
  let existing ← getForward
  existing.elim (createForward f) (updateForward f)

def otherPorts (id : String) (ports : List Port) : List Port :=
  ports.filter fun p => p.description ≠ portDescription id

def clearForward (existing : Forward) : Forwarding Unit :=
  let ports := otherPorts f.id existing.ports
  if ports.length = existing.ports.length then pure ()
  else if ports = [] ∧ existing.description = forwardDescription then Forwarding.delete
  else Forwarding.put ⟨existing.description, existing.config, ports⟩

/-- Removes this cluster's port; deletes the forward when it was IncusCloud's and nothing is left. -/
def removeForward : Forwarding Unit := do
  let existing ← getForward
  existing.elim (pure ()) (clearForward f)

inductive PortCall
  | ensure (f : ForwardSpec)
  | remove (f : ForwardSpec)

def PortCall.id : PortCall → String
  | ensure f => f.id
  | remove f => f.id

def PortCall.run : PortCall → Forwarding Unit
  | ensure f => do
    let _ ← ensureForward f
    pure ()
  | remove f => removeForward f

def runAll : List PortCall → Forwarding Unit
  | [] => pure ()
  | c :: cs => do
    c.run
    runAll cs

end IncusCloud.Kubernetes
