import IncusCloud.Balancing.Engine
import IncusCloud.Mobility.Migrate

/-!
# Rebalancing a cluster

`rebalanceHandler` and `moveOne` of `balancing/jobs.ts`, and what they call. Every call of the
cluster may fail, before or after it took effect; those of the database succeed, and the job may be
cancelled during any call. Nobody else changes the instances while the job runs. A move that was
waited for in vain has gone through by then or does not.

`log` is history, the last call first.
-/

namespace IncusCloud.Balancing

open Lib
open Mobility (Instance Status StateAction)

abbrev InstanceRef := String × String

variable (mv : Move)

def Move.ref : InstanceRef := (mv.project, mv.name)

inductive MoveResult
  | moved | skipped | failed
  deriving DecidableEq

structure MoveOutcome where
  move : Move
  outcome : MoveResult
  detail : Option String

structure RebalanceResult (N : Type) where
  before : N
  after : N
  moves : List MoveOutcome
  notes : List String

structure Planned (N : Type) where
  plan : Plan N
  running : OrdMap String Bool
  once : (plan.moves.map Move.ref).Nodup

/-- What `rebalanceHandler` awaits. -/
inductive RebalanceCall
  | clientFor
  | policyOf
  | progress (stage message : String)
  | planCluster
  /-- `if (ctx.signal.aborted) throw ctx.signal.reason`. -/
  | throwIfAborted
  | isAborted
  | readInstance (ref : InstanceRef)
  /-- `setState`, which is content when the instance is in that state already. -/
  | setState (ref : InstanceRef) (action : StateAction)
  | post (mv : Move) (live : Bool)
  | waitOp (mv : Move)
  | refreshInventory
  /-- `succeeded`: `lastSuccessAt` is set too. -/
  | setPolicy (succeeded : Bool) (lastError : String)
  deriving DecidableEq

/-- `IncusInstanceNow`. -/
structure Hosted where
  location : String
  state : Instance
  deriving DecidableEq

/-- What each answers; of the policy, whether it allows restarts, and of the `POST`, whether there
is an operation. -/
def RebalanceCall.Answer (N : Type) : RebalanceCall → Type
  | policyOf => Bool
  | planCluster => Planned N
  | isAborted => Bool
  | readInstance _ => Hosted
  | post _ _ => Bool
  | _ => Unit

inductive RebalanceError
  | aborted (reason : String)
  | failed (message : String)

def RebalanceError.message : RebalanceError → String
  | aborted reason => reason
  | failed message => message

/-! ### The cluster -/

/-- A call that was made, whether it failed, whether it took effect, and whether it moved an
instance. -/
structure CallRecord where
  call : RebalanceCall
  failed : Bool
  took : Bool
  relocated : Bool

structure Rebalancing where
  instances : OrdMap InstanceRef Hosted
  aborted : Option String
  log : List CallRecord

structure CallGoes where
  error : Option String
  took : Bool
  /-- The answer to the `POST` names an operation. -/
  async : Bool
  cancelled : Option String

namespace Rebalancing

variable {α : Type} (w : Rebalancing)

def enter (o : CallGoes) (r : CallRecord) (instances : OrdMap InstanceRef Hosted) : Rebalancing :=
  ⟨instances, w.aborted.or o.cancelled, r :: w.log⟩

variable (c : RebalanceCall)

def sure (o : CallGoes) (a : α) : Except RebalanceError α × Rebalancing :=
  (.ok a, w.enter o ⟨c, false, true, false⟩ w.instances)

def refuse (o : CallGoes) (message : String) : Except RebalanceError α × Rebalancing :=
  (.error (.failed message), w.enter o ⟨c, true, false, false⟩ w.instances)

def silent (o : CallGoes) (a : α) : Except RebalanceError α × Rebalancing :=
  match o.error with
  | none => w.sure c o a
  | some message => w.refuse c o message

def reply (o : CallGoes) (a : α) (instances : OrdMap InstanceRef Hosted)
    (relocated : Bool) : Except RebalanceError α × Rebalancing :=
  match o.error with
  | none => (.ok a, w.enter o ⟨c, false, true, relocated⟩ instances)
  | some message =>
    if o.took then (.error (.failed message), w.enter o ⟨c, true, true, relocated⟩ instances)
    else w.refuse c o message

def found (o : CallGoes) (ref : InstanceRef)
    (go : Hosted → Except RebalanceError α × Rebalancing) : Except RebalanceError α × Rebalancing :=
  match w.instances.get ref with
  | none => w.refuse c o "Instance not found"
  | some h => go h

def inState (ref : InstanceRef) (h : Hosted) : StateAction → OrdMap InstanceRef Hosted
  | .start => w.instances.set ref { h with state := h.state.started }
  | .stop =>
    if h.state.status = .stopped then w.instances
    else
      match h.state.stopped with
      | none => w.instances.erase ref
      | some i => w.instances.set ref { h with state := i }

def moved (h : Hosted) : OrdMap InstanceRef Hosted :=
  w.instances.set mv.ref { h with location := mv.target }

end Rebalancing

structure RebalanceSite (N : Type) where
  planned : Planned N
  allowRestart : Bool

variable {N : Type}

def rebalanceAnswer (site : RebalanceSite N) (c : RebalanceCall) (w : Rebalancing) (o : CallGoes) :
    Except RebalanceError (c.Answer N) × Rebalancing :=
  match c with
  | .clientFor => w.silent .clientFor o ()
  | .policyOf => w.sure .policyOf o site.allowRestart
  | .progress stage message => w.sure (.progress stage message) o ()
  | .planCluster => w.silent .planCluster o site.planned
  | .throwIfAborted =>
    match w.aborted.or o.cancelled with
    | none => w.sure .throwIfAborted o ()
    | some reason => (.error (.aborted reason), w.enter o ⟨.throwIfAborted, true, false, false⟩ w.instances)
  | .isAborted => w.sure .isAborted o (w.aborted.or o.cancelled).isSome
  | .readInstance ref => w.found (.readInstance ref) o ref fun h => w.silent (.readInstance ref) o h
  | .setState ref action =>
    w.found (.setState ref action) o ref fun h => w.reply (.setState ref action) o () (w.inState ref h action) false
  | .post mv live =>
    w.found (.post mv live) o mv.ref fun h =>
      if o.error = none ∧ o.async = true then w.sure (.post mv live) o true
      else w.reply (.post mv live) o false (w.moved mv h) true
  | .waitOp mv => w.found (.waitOp mv) o mv.ref fun h => w.reply (.waitOp mv) o () (w.moved mv h) true
  | .refreshInventory => w.sure .refreshInventory o ()
  | .setPolicy succeeded lastError => w.sure (.setPolicy succeeded lastError) o ()

def rebalanceWorld (site : RebalanceSite N) :
    World RebalanceCall (RebalanceCall.Answer N) RebalanceError Rebalancing CallGoes := ⟨rebalanceAnswer site⟩

/-! ### The handler -/

/-- Its `moves`. -/
abbrev Rebalance (N : Type) := Handler RebalanceCall (RebalanceCall.Answer N) RebalanceError (List MoveOutcome)

open Handler (call locals assign when)

def clientFor : Rebalance N Unit := call RebalanceCall.clientFor
def policyOf : Rebalance N Bool := call RebalanceCall.policyOf
def progress (stage message : String) : Rebalance N Unit := call (RebalanceCall.progress stage message)
def planCluster : Rebalance N (Planned N) := call RebalanceCall.planCluster
def throwIfAborted : Rebalance N Unit := call RebalanceCall.throwIfAborted
def isAborted : Rebalance N Bool := call RebalanceCall.isAborted
def readInstance (ref : InstanceRef) : Rebalance N Hosted := call (RebalanceCall.readInstance ref)
def setState (ref : InstanceRef) (action : StateAction) : Rebalance N Unit := call (RebalanceCall.setState ref action)
def post (live : Bool) : Rebalance N Bool := call (RebalanceCall.post mv live)
def waitOp : Rebalance N Unit := call (RebalanceCall.waitOp mv)
def refreshInventory : Rebalance N Unit := call RebalanceCall.refreshInventory
def setPolicy (succeeded : Bool) (lastError : String) : Rebalance N Unit :=
  call (RebalanceCall.setPolicy succeeded lastError)

def statusText : Status → String
  | .running => "Running"
  | .stopped => "Stopped"
  | .other text => text

def movesLive (now : Hosted) : Bool :=
  now.state.status = .running && now.state.type = .virtualMachine &&
    now.state.tag "migration.stateful" = some "true"

def skipReason (wasRunning allowRestart : Bool) (now : Hosted) : Option String :=
  let running : Bool := now.state.status = .running
  if now.location ≠ mv.source then some ("now on " ++ now.location)
  else if running ≠ wasRunning ∨ (now.state.status ≠ .running ∧ now.state.status ≠ .stopped) then
    some ((statusText now.state.status).toLower ++ " since planned")
  else if running ∧ movesLive now = false ∧ allowRestart = false then some "would need a restart"
  else none

def carry (live restart : Bool) : Rebalance N Unit := do
  when restart (setState mv.ref .stop)
  let operation ← post mv live
  when operation (waitOp mv)

/-- `setState(…, "start").catch(() => {})`. -/
def startAgain (ref : InstanceRef) : Rebalance N Unit := tryCatch (setState ref .start) fun _ => pure ()

def confirm : Rebalance N MoveOutcome := do
  let after ← readInstance mv.ref
  if after.location ≠ mv.target then pure ⟨mv, .failed, some ("still on " ++ after.location)⟩
  else pure ⟨mv, .moved, none⟩

def moveAs (live restart : Bool) : Rebalance N MoveOutcome := do
  let failure ← tryCatch (do carry mv live restart; pure none) fun e => do
    when restart (startAgain mv.ref)
    pure (some e.message)
  match failure with
  | some message => pure ⟨mv, .failed, some message⟩
  | none =>
    when restart (startAgain mv.ref)
    confirm mv

def moveOne (wasRunning allowRestart : Bool) : Rebalance N MoveOutcome := do
  let now ← readInstance mv.ref
  match skipReason mv wasRunning allowRestart now with
  | some detail => pure ⟨mv, .skipped, some detail⟩
  | none => moveAs mv (movesLive now) (now.state.status = .running && !movesLive now)

def carryOut (planned : Planned N) (allowRestart : Bool) : List Move → Rebalance N Unit
  | [] => pure ()
  | mv :: rest => do
    throwIfAborted
    progress "moving" (mv.project ++ "/" ++ mv.name ++ " → " ++ mv.target)
    let o ← moveOne mv ((planned.running.get (mv.project ++ "/" ++ mv.name)).getD false) allowRestart
    assign fun moves => moves ++ [o]
    carryOut planned allowRestart rest

/-- `lastError` of a run that came to its end. -/
def failuresText (moves : List MoveOutcome) : String :=
  let failed := moves.filter fun o => o.outcome = .failed
  if failed = [] then ""
  else
    toString failed.length ++ " of " ++ toString moves.length ++ " moves failed: " ++
      "; ".intercalate (failed.map fun f => f.move.name ++ ": " ++ f.detail.getD "")

/-- `text.slice(0, 1000)`; a character outside the basic plane counts once here. -/
def clipped (text : String) : String := String.ofList (text.toList.take 1000)

def rebalance : Rebalance N (RebalanceResult N) := do
  clientFor
  let allowRestart ← policyOf
  progress "planning" ""
  let planned ← planCluster
  carryOut planned allowRestart planned.plan.moves
  let moves ← locals
  when (moves ≠ []) refreshInventory
  setPolicy true (clipped (failuresText moves))
  pure ⟨planned.plan.before, planned.plan.after, moves, planned.plan.notes⟩

def rebalanceHandler : Rebalance N (RebalanceResult N) :=
  tryCatch rebalance fun e => do
    let aborted ← isAborted
    when (!aborted) (setPolicy false (clipped e.message))
    throw e

end IncusCloud.Balancing
