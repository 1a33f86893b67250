import IncusCloud.Lib.Json
import IncusCloud.Mobility.Migrate

/-!
# Transfers

`transfer` of `mobility/transfer.ts`: an instance's data goes from one cluster to another, by the
source or over websockets the control plane opens to both. Every call may fail and every operation
may be in any state; an answer may come for any id.

A world is the trace of a run: the calls and their answers. The loop that waits goes round at most
`rounds` times, of which each makes two calls, so a run of no more calls than that does not meet the
limit. `finally` closes the sockets before it waits for the pipes, and a pipe only resolves, so of
the pipes the wait is kept.
-/

namespace IncusCloud.Mobility.Transfer

open Lib

inductive Side
  | src
  | dst
  deriving DecidableEq

structure TransferOptions where
  dstUrl : String
  srcProject : String
  dstProject : String
  name : String
  request : TargetRequest
  refresh : Bool
  live : Bool
  instanceOnly : Bool
  targetCert : String
  transport : Transport

def pollS : ℕ := 2

/-- How a source says that it cannot reach the target. -/
def unreachableTexts : List String :=
  ["unable to connect", "dial tcp", "connection refused", "no route to host", "i/o timeout",
    "network is unreachable", "context deadline exceeded"]

/-- `UNREACHABLE.test(reason)`, in either case. -/
def unreachable (reason : String) : Bool :=
  unreachableTexts.any fun text => text.toList <:+: reason.toList.map Char.toLower

/-- `target` of a source that connects to it. -/
structure TargetAddress where
  operation : String
  certificate : String
  secrets : OrdMap String String

/-- The body of the source's `POST`. -/
structure SourceBody where
  live : Bool
  instanceOnly : Bool
  target : Option TargetAddress

/-- The body of the target's `POST`: the request, and where its data comes from. -/
structure TargetBody where
  request : TargetRequest
  refresh : Bool
  live : Bool
  instanceOnly : Bool

structure Started where
  operation : Option String
  id : String
  metadata : Option (OrdMap String String)

structure OpState where
  status : String
  err : String
  metadata : Json

structure Op where
  id : String
  path : String
  secrets : OrdMap String String

def opOf (r : Started) : Op :=
  ⟨r.id, r.operation.getD ("/1.0/operations/" ++ r.id), r.metadata.getD []⟩

/-- What is awaited or read, and the sockets that are closed. -/
inductive Call
  /-- `POST /1.0/instances/<name>?project=<project>` to the source. -/
  | startSource (name project : String) (body : SourceBody)
  /-- `POST /1.0/instances?project=<project>` to the target. -/
  | startTarget (project : String) (body : TargetBody)
  | status (path : String)
  /-- `GET <path>/wait?timeout=<POLL_S>` from the target. -/
  | wait (path : String) (timeout : ℕ)
  /-- Both of a pair at once: the operation and the secret of each. -/
  | websockets (srcId srcSecret dstId dstSecret : String)
  | cancel (side : Side) (path : String)
  | close (socket : ℕ)
  | aborted
  | onProgress (text : String)
  | pipes

/-- What each answers; of a pair, the sockets that opened. -/
abbrev Call.Answer : Call → Type
  | startSource .. | startTarget .. => Started
  | status _ | wait .. => OpState
  | websockets .. => Option ℕ × Option ℕ
  | aborted => Option String
  | _ => Unit

inductive Failure
  | targetFailed (reason : String)
  | sourceFailed (reason : String)
  /-- What a call failed with, and what aborted the signal. -/
  | other (message : String)
  | endless

def Failure.message : Failure → String
  | .targetFailed reason => "Target: " ++ reason
  | .sourceFailed reason => "Source: " ++ reason
  | .other message => message
  | .endless => ""

/-! ### The world -/

structure Event where
  call : Call
  answer : Except Failure call.Answer

structure Outcome where
  fails : Option String
  answers : (call : Call) → call.Answer
  opens : Bool × Bool

/-- A socket is known by the place in the trace at which it was opened; to read the signal, to close
a socket and to wait for the pipes does not fail. -/
def answer (call : Call) (trace : List Event) (o : Outcome) : Except Failure call.Answer :=
  match call with
  | .websockets .. =>
    .ok (if o.opens.1 then some (2 * trace.length) else none, if o.opens.2 then some (2 * trace.length + 1) else none)
  | .aborted => .ok (o.answers .aborted)
  | .close _ => .ok ()
  | .pipes => .ok ()
  | call =>
    match o.fails with
    | some message => .error (.other message)
    | none => .ok (o.answers call)

def world : World Call Call.Answer Failure (List Event) Outcome where
  answer call trace o := (answer call trace o, trace ++ [⟨call, answer call trace o⟩])

/-! ### The transfer -/

/-- `src` of `direct` and `sockets` of `relay`. -/
structure Locals where
  src : Option Op
  sockets : List ℕ

abbrev Transferring := Handler Call Call.Answer Failure Locals

def await (call : Call) : Transferring call.Answer := Handler.call call

def progressText (metadata : Json) : Option String :=
  match metadata with
  | .obj m =>
    let p := (OrdMap.get m "progress").getD .null
    match p.child "percent" with
    | some (.str percent) =>
      if percent ≠ "" then
        match p.child "speed" with
        | some (.str speed) => some (percent ++ "%" ++ if speed ≠ "" then " (" ++ speed ++ ")" else "")
        | _ => some (percent ++ "%")
      else lastProgress m
    | _ => lastProgress m
  | _ => none
where
  /-- The first entry whose key ends in `progress`. -/
  lastProgress (m : List (String × Json)) : Option String :=
    m.findSome? fun e =>
      match e.2 with
      | .str v => if "progress".toList.isSuffixOf e.1.toList then some v else none
      | _ => none

/-- `s.err || s.status`. -/
def OpState.reason (s : OpState) : String := if s.err = "" then s.status else s.err

def OpState.failed (s : OpState) : Bool := s.status = "Failure" || s.status = "Cancelled"

variable (o : TransferOptions)

def startSource (target : Option TargetAddress) : Transferring Op :=
  tryCatch
    (do
      let r : Started ← await (.startSource o.name o.srcProject ⟨o.live, o.instanceOnly, target⟩)
      pure (opOf r))
    fun e => throw (.sourceFailed e.message)

def startTarget : Transferring Op :=
  tryCatch
    (do
      let r : Started ← await (.startTarget o.dstProject ⟨o.request, o.refresh, o.live, o.instanceOnly⟩)
      pure (opOf r))
    fun e => throw (.targetFailed e.message)

/-- `if (o.signal.aborted) throw o.signal.reason`. -/
def throwIfAborted : Transferring Unit := do
  let aborted : Option String ← await .aborted
  match aborted with
  | some reason => throw (.other reason)
  | none => pure ()

def checkSource : Option Op → Transferring Unit
  | none => pure ()
  | some src => do
    let s : OpState ← await (.status src.path)
    if s.failed then throw (.sourceFailed s.reason) else pure ()

/-- `if (text) await o.onProgress(text)`. -/
def reportProgress (metadata : Json) : Transferring Unit :=
  match progressText metadata with
  | some text => Handler.when (text ≠ "") (await (.onProgress text))
  | none => pure ()

def waitTarget (dst : Op) (src : Option Op) : ℕ → Transferring Unit
  | 0 => throw .endless
  | rounds + 1 => do
    throwIfAborted
    checkSource src
    let r : OpState ← await (.wait dst.path pollS)
    if r.status = "Success" then pure ()
    else if r.failed then throw (.targetFailed r.reason)
    else do
      reportProgress r.metadata
      waitTarget dst src rounds

def cancel (side : Side) (path : String) : Transferring Unit :=
  tryCatch (await (.cancel side path)) fun _ => pure ()

def Failure.isSourceFailed : Failure → Bool
  | .sourceFailed _ => true
  | _ => false

def Failure.isTargetFailed : Failure → Bool
  | .targetFailed _ => true
  | _ => false

/-- `src && !(e instanceof SourceFailed) ? o.src.cancel(src.path) : undefined`. -/
def cancelSource (e : Failure) : Option Op → Transferring Unit
  | some src => Handler.when (!e.isSourceFailed) (cancel .src src.path)
  | none => pure ()

/-- `e instanceof TargetFailed ? undefined : o.dst.cancel(dst.path)`. -/
def cancelTarget (e : Failure) (dst : Op) : Transferring Unit :=
  Handler.when (!e.isTargetFailed) (cancel .dst dst.path)

def direct (rounds : ℕ) : Transferring Unit := do
  let dst ← startTarget o
  tryCatch
    (do
      let src ← startSource o (some ⟨o.dstUrl ++ "/1.0/operations/" ++ dst.id, o.targetCert, dst.secrets⟩)
      Handler.assign fun l => { l with src := some src }
      waitTarget dst (some src) rounds)
    fun e => do
      let l ← Handler.locals
      cancelSource e l.src
      cancelTarget e dst
      throw e

/-- `src.secrets[n] && dst.secrets[n]`. -/
def hasSecret (op : Op) (n : String) : Bool := (op.secrets.get n).any (· ≠ "")

def socketNames (src dst : Op) : List String :=
  ("control" :: (src.secrets.map (·.1)).filter (· ≠ "control")).filter fun n => hasSecret src n && hasSecret dst n

def openPair (src dst : Op) (n : String) : Transferring Unit := do
  let r : Option ℕ × Option ℕ ←
    await (.websockets src.id ((src.secrets.get n).getD "") dst.id ((dst.secrets.get n).getD ""))
  match r with
  | (some a, some b) => Handler.assign fun l => { l with sockets := l.sockets ++ [a, b] }
  | _ => throw (.other "Websocket")

def openAll (src dst : Op) : List String → Transferring Unit
  | [] => pure ()
  | n :: names => do
    openPair src dst n
    openAll src dst names

def closeAll : List ℕ → Transferring Unit
  | [] => pure ()
  | s :: sockets => do
    await (.close s)
    closeAll sockets

/-- `finally` of `relay`. -/
def closeSockets : Transferring Unit := do
  let l ← Handler.locals
  closeAll l.sockets
  await .pipes

/-- `catch` of `relay`. -/
def cancelRelay (e : Failure) (src dst : Op) : Transferring Unit := do
  cancel .src src.path
  cancelTarget e dst
  throw e

def relay (rounds : ℕ) : Transferring Unit := do
  let src ← startSource o none
  let dst ← tryCatch (startTarget o) fun e => do
    cancel .src src.path
    throw e
  Handler.assign fun l => { l with sockets := [] }
  Handler.andFinally
    (tryCatch
      (do
        openAll src dst (socketNames src dst)
        waitTarget dst none rounds)
      fun e => cancelRelay e src dst)
    closeSockets

/--
`o.transport === "auto" && !o.signal.aborted && e instanceof SourceFailed && UNREACHABLE.test(e.reason)`. -/
def fallsBack (e : Failure) : Transferring Bool :=
  if o.transport = .auto then do
    let aborted : Option String ← await .aborted
    pure (aborted.isNone &&
      match e with
      | .sourceFailed reason => unreachable reason
      | _ => false)
  else pure false

def transfer (rounds : ℕ) : Transferring Transport :=
  if o.transport = .relay then do
    relay o rounds
    pure .relay
  else
    tryCatch
      (do
        direct o rounds
        pure .direct)
      fun e => do
        let again ← fallsBack o e
        if again then do
          await (.onProgress "The source cannot reach the target; relaying through the control plane")
          relay o rounds
          pure .relay
        else throw e

end IncusCloud.Mobility.Transfer
