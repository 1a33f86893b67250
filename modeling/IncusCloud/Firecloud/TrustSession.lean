import IncusCloud.Lib.OrdMap
import IncusCloud.Lib.RwLock

/-!
# Trust sessions

`service/session.go`, the sessions of `service/service_handler.go`, and the requests that use them:
session/initiating and session/joining (`api/session.go`), session/join behind `authHandlerHMAC`
(`api/session_join.go`, `api/services_auth.go`) and session/stop (`api/session_stop.go`), for any
number of requests on one Handler, all of them past mTLS where they need it. A step is what happens
between two points where a request waits or others may come in between: the locks are taken and left
as in the source, and the channel of intents has no buffer, so that a post waits on it for whoever
receives.

The websocket of a request is by then open or its context is done (`gone`); what the client, the
certificates, the multicast discovery and the other systems answer comes with the step.

`replaced`, `uses`, `wrong`, `passed` and `received` are history.
-/

namespace IncusCloud.Firecloud.Trust

open Lib

def allowedFailedJoinAttempts : ℕ := 50

inductive SessionRole
  | initiating | joining
  deriving DecidableEq

structure Intent where
  name : String
  certificate : String
  deriving DecidableEq

structure JoinPost where
  /-- What `trust.HMACEqual` says of its header, by the passphrase. -/
  hmac : String → Bool
  intent : Intent
  fingerprint : Option String

inductive Request
  | session (role : SessionRole)
  | join (post : JoinPost)
  | stop

structure Session (ι : Type) where
  passphrase : String
  trustStore : OrdMap String String
  failedAttempts : ℕ
  gw : ι
  role : SessionRole
  discovery : Bool
  joinIntentFingerprints : List String
  intentsClosed : Bool
  exitClosed : Bool
  lock : Option ι

/-- `NewSession`, of a passphrase that was given or generated. -/
def newSession {ι : Type} (role : SessionRole) (passphrase : String) (gw : ι) : Session ι where
  passphrase := passphrase
  trustStore := []
  failedAttempts := 0
  gw := gw
  role := role
  discovery := false
  joinIntentFingerprints := []
  intentsClosed := false
  exitClosed := false
  lock := none

/-! ### Where requests are -/

/-- Where `handleInitiatingSession` or `handleJoiningSession` is, once its session is started. -/
inductive HandlerPhase
  | announcing
  | greeting
  | preparing
  /-- At `sh.Session.IntentCh()`, before the select. -/
  | looping
  | waiting (s : ℕ)
  /-- An intent was received, and goes to the websocket. -/
  | forwarding (intent : Intent)
  | allowing (confirmed : List Intent)
  | confirming
  | trusting (intent : Intent)
  | ending

/-- What calls `Stop`. -/
inductive StopBy
  /-- `authHandlerHMAC`, after too many failed attempts. -/
  | limit
  | put
  | deferred
  deriving DecidableEq

/-- Where `Stop` is. -/
inductive StopPhase
  | locking
  | writing
  | hangingUp
  | responder
  | clearing
  | probing
  | closing
  | exiting
  deriving DecidableEq

inductive Task
  | fresh (r : Request)
  | opened (role : SessionRole)
  | asked (role : SessionRole) (passphrase : String)
  | handling (role : SessionRole) (phase : HandlerPhase)
  /-- The handler has returned; the deferred `StopSession` is next. -/
  | leaving
  | stopping (by_ : StopBy) (s : ℕ) (phase : StopPhase)
  | passed (post : JoinPost)
  | inside (post : JoinPost) (s : ℕ)
  | registered (post : JoinPost) (s : ℕ)
  | sending (post : JoinPost) (s : ℕ)
  | panicked
  | done (ok : Bool)

def Task.sendsOn (s : ℕ) : Task → Bool
  | sending _ t => t = s
  | _ => false

/-! ### The system -/

inductive Receiver (ι : Type)
  /-- `confirmedIntents` or `handleJoiningSession` of a request. -/
  | handler (i : ι)
  | stop (i : ι)
  deriving DecidableEq

structure World (ι : Type) where
  sessions : List (Session ι)
  current : Option ℕ
  sessionLock : RwLock ι
  tasks : ι → Task
  gone : ι → Bool
  /-- Sessions in whose place another was put while they were active. -/
  replaced : List ℕ
  /-- Which request's handler took intents from, allowed certificates in or stopped which session. -/
  uses : List (ι × ℕ)
  wrong : List ℕ
  /-- The session of each post that was let through, with how many wrong ones there had been against
  it. -/
  passed : List (ℕ × ℕ)
  received : List (ι × Receiver ι)

inductive Outcome (ι : Type)
  | ok
  | fails
  | passphrase (text : String)
  | confirms (intents : List Intent)
  | takes (j : ι)
  | closed
  deriving DecidableEq

inductive Action (ι : Type)
  | go (i : ι) (o : Outcome ι)
  /-- The context of a request's websocket is done: the client is gone, or the session's time is
  over. -/
  | hangUp (i : ι)

namespace World

variable {ι : Type} [DecidableEq ι]

def start (requests : ι → Request) : World ι :=
  ⟨[], none, .free, fun i => .fresh (requests i), fun _ => false, [], [], [], [], []⟩

variable (w : World ι)

def setTask (i : ι) (t : Task) : World ι :=
  { w with tasks := Function.update w.tasks i t }

def modify (s : ℕ) (f : Session ι → Session ι) : World ι :=
  { w with sessions := w.sessions.modify s f }

/-- `sh.Session`. -/
def session : Option (ℕ × Session ι) :=
  w.current.bind fun s => (w.sessions[s]?).map (s, ·)

/-- What `SessionTransaction` finds, once it has the handler's lock: the session, or that none is
active. Reading the passphrase waits for who is in `Stop`. -/
def transaction : Option (Option (ℕ × Session ι)) :=
  match w.session with
  | none => some none
  | some (s, x) =>
    if x.lock.isSome then none else if x.passphrase = "" then some none else some (some (s, x))

/-- A request leaves its transaction under the read lock. -/
def leave (i : ι) (ok : Bool) : World ι :=
  { w.setTask i (.done ok) with sessionLock := w.sessionLock.runlock fun j => j = i }

/-- The intent of a waiting post is received, and the post returns. -/
def deliver (j : ι) (by_ : Receiver ι) : World ι :=
  { w.leave j true with received := (j, by_) :: w.received }

/-! #### session/initiating and session/joining -/

/-- `sessionGet`, up to `ActiveSession`. -/
def sessionGet (i : ι) (role : SessionRole) : Option (World ι) :=
  if w.sessionLock.writer.isSome then none
  else w.transaction.map fun
    | some _ => w.setTask i (.done false)
    | none => w.setTask i (.opened role)

/-- `StartSession`; a passphrase that is not given is generated. -/
def startSession (i : ι) (role : SessionRole) (given generated : String) : Option (World ι) :=
  let passphrase := if given = "" then generated else given
  if passphrase = "" then none
  else
    (w.sessionLock.lock i).map fun _ =>
      { w.setTask i (.handling role (match role with
          | .initiating => .announcing
          | .joining => .preparing)) with
        sessions := w.sessions ++ [newSession role passphrase i]
        current := some w.sessions.length
        replaced := (match w.session with
          | some (s, x) => if x.passphrase = "" then [] else [s]
          | none => []) ++ w.replaced }

/-- `sh.Session.Allow`. -/
def allow (i : ι) (intent : Intent) (next : Task) : Option (World ι) :=
  w.session.bind fun (s, x) =>
    if x.lock.isSome then none
    else
      some
        { (w.modify s fun x => { x with trustStore := x.trustStore.set intent.name intent.certificate }).setTask
            i next with
          uses := (i, s) :: w.uses }

/-- The select of `confirmedIntents` and of `handleJoiningSession`. -/
def select (i : ι) (role : SessionRole) (s : ℕ) : Outcome ι → Option (World ι)
  | .takes j =>
    match w.tasks j with
    | .sending post t =>
      if t = s then
        some
          { (w.deliver j (.handler i)).setTask i (.handling role (.forwarding post.intent)) with
            uses := (i, s) :: w.uses }
      else none
    | _ => none
  -- `confirmedIntents` goes on, on the channel of the session that is there by then.
  | .closed =>
    if w.sessions[s]?.any (·.intentsClosed) then
      some (w.setTask i (match role with
        | .initiating => .handling role .looping
        | .joining => .leaving))
    else none
  | .confirms intents =>
    if role = .initiating then some (w.setTask i (.handling role (.allowing intents))) else none
  | .fails => some (w.setTask i .leaving)
  | _ => none

/-- `handleInitiatingSession` and `handleJoiningSession`; what fails leads to the deferred stop. -/
def handle (i : ι) (role : SessionRole) : HandlerPhase → Outcome ι → Option (World ι)
  | .announcing, .ok =>
    w.current.map fun s =>
      (w.modify s fun x => { x with discovery := true }).setTask i (.handling role .greeting)
  | .announcing, .fails =>
    w.current.map fun s => (w.modify s fun x => { x with discovery := true }).setTask i .leaving
  | .greeting, .ok =>
    w.session.bind fun (_, x) =>
      if x.lock.isSome || w.gone i then none else some (w.setTask i (.handling role .looping))
  | .preparing, .ok => some (w.setTask i (.handling role .looping))
  | .looping, .ok => w.current.map fun s => w.setTask i (.handling role (.waiting s))
  | .waiting s, o => w.select i role s o
  | .forwarding intent, .ok =>
    if w.gone i then none
    else some (w.setTask i (.handling role (match role with
      | .initiating => .looping
      | .joining => .trusting intent)))
  | .allowing (intent :: confirmed), .ok => w.allow i intent (.handling role (.allowing confirmed))
  | .allowing [], .ok => some (w.setTask i (.handling role .confirming))
  | .confirming, .ok => some (w.setTask i .leaving)
  | .trusting intent, .ok => w.allow i intent (.handling role .ending)
  | .ending, .ok => some (w.setTask i .leaving)
  | .looping, .fails => none
  | _, .fails => some (w.setTask i .leaving)
  | _, _ => none

/-- `StopSession(nil)`, up to the session's `Stop`. -/
def stopSession (i : ι) : Option (World ι) :=
  (w.sessionLock.lock i).map fun l =>
    match w.current with
    | some s =>
      { w.setTask i (.stopping .deferred s .locking) with sessionLock := l, uses := (i, s) :: w.uses }
    | none => w.setTask i (.done true)

/-! #### Stop -/

/-- Whoever called `Stop` leaves its transaction. -/
def finish (i : ι) : StopBy → Bool → World ι
  | .put, ok => w.leave i ok
  | .limit, _ => { w.setTask i (.done false) with sessionLock := w.sessionLock.unlock }
  | .deferred, ok => { w.setTask i (.done ok) with sessionLock := w.sessionLock.unlock }

/-- `Stop` returns. -/
def stopped (i : ι) (by_ : StopBy) (s : ℕ) (ok : Bool) : World ι :=
  (w.modify s fun x => { x with lock := none }).finish i by_ ok

/-- `close(s.joinIntents)`: every send that waits there panics. -/
def closeIntents (i : ι) (by_ : StopBy) (s : ℕ) : World ι :=
  { (w.modify s fun x => { x with intentsClosed := true }) with
    tasks := Function.update (fun j => if (w.tasks j).sendsOn s then .panicked else w.tasks j) i
      (.stopping by_ s .exiting)
    sessionLock := w.sessionLock.runlock fun j => (w.tasks j).sendsOn s }

def stop (i : ι) (by_ : StopBy) (s : ℕ) (x : Session ι) : StopPhase → Outcome ι → Option (World ι)
  | .locking, .ok =>
    if x.lock.isSome then none
    else
      some ((w.modify s fun x => { x with lock := some i }).setTask i
        (.stopping by_ s (if by_ = .deferred then .responder else .writing)))
  | .writing, .ok => if w.gone x.gw then none else some (w.setTask i (.stopping by_ s .hangingUp))
  | .writing, .fails => some (w.stopped i by_ s false)
  | .hangingUp, .ok => if w.gone x.gw then some (w.setTask i (.stopping by_ s .responder)) else none
  | .responder, .ok => some (w.setTask i (.stopping by_ s .clearing))
  | .responder, .fails => if x.discovery then some (w.stopped i by_ s false) else none
  | .clearing, .ok =>
    some ((w.modify s fun x =>
      { x with passphrase := "", trustStore := [], joinIntentFingerprints := [], failedAttempts := 0 }).setTask i
        (.stopping by_ s .probing))
  -- For idempotency the select receives from the channel first.
  | .probing, .takes j =>
    if (w.tasks j).sendsOn s then
      some ((w.deliver j (.stop i)).setTask i (.stopping by_ s .exiting))
    else none
  | .probing, .closed =>
    if x.intentsClosed then some (w.setTask i (.stopping by_ s .exiting)) else none
  | .probing, .ok =>
    if x.intentsClosed || w.sessionLock.readers.any fun j => (w.tasks j).sendsOn s then none
    else some (w.setTask i (.stopping by_ s .closing))
  | .closing, .ok => some (w.closeIntents i by_ s)
  | .exiting, .ok => some ((w.modify s fun x => { x with exitClosed := true }).stopped i by_ s true)
  -- A signal that waits on the exit channel is received instead.
  | .exiting, .fails => some (w.stopped i by_ s true)
  | _, _ => none

/-! #### session/join and session/stop -/

def authHandlerHMAC (i : ι) (post : JoinPost) : Option (World ι) :=
  (w.sessionLock.lock i).bind fun l => w.transaction.map fun
    | none => w.setTask i (.done false)
    | some (s, x) =>
      if post.hmac x.passphrase then
        { w.setTask i (.passed post) with passed := (s, w.wrong.count s) :: w.passed }
      else if x.failedAttempts = allowedFailedJoinAttempts then
        { w.setTask i (.stopping .limit s .locking) with sessionLock := l, wrong := s :: w.wrong }
      else
        { (w.modify s fun x => { x with failedAttempts := x.failedAttempts + 1 }).setTask i (.done false) with
          wrong := s :: w.wrong }

/-- The transaction of `sessionJoinPost`, up to its check. -/
def sessionJoinPost (i : ι) (post : JoinPost) : Outcome ι → Option (World ι)
  | .fails => some (w.setTask i (.done false))
  | .ok =>
    (w.sessionLock.rlock i).bind fun l => w.transaction.map fun
      | none => w.setTask i (.done false)
      | some (s, _) => { w.setTask i (.inside post s) with sessionLock := l }
  | _ => none

/-- `RegisterIntent`, after what `validateIntent` says. -/
def registerIntent (i : ι) (post : JoinPost) (s : ℕ) : Outcome ι → Option (World ι)
  | .fails => some (w.leave i false)
  | .ok =>
    match post.fingerprint with
    | none => some (w.leave i false)
    | some fingerprint =>
      (w.sessions[s]?).bind fun x =>
        if x.lock.isSome then none
        else if fingerprint ∈ x.joinIntentFingerprints then some (w.leave i false)
        else
          some ((w.modify s fun x =>
            { x with joinIntentFingerprints := x.joinIntentFingerprints ++ [fingerprint] }).setTask i
              (.registered post s))
  | _ => none

def send (i : ι) (post : JoinPost) (s : ℕ) : Outcome ι → Option (World ι)
  | .fails => some (w.leave i false)
  | .ok =>
    if w.sessions[s]?.any (·.intentsClosed) then some ((w.leave i false).setTask i .panicked)
    else some (w.setTask i (.sending post s))
  | _ => none

/-- `sessionStopPut`, up to the session's `Stop`. -/
def sessionStopPut (i : ι) : Outcome ι → Option (World ι)
  | .fails => some (w.setTask i (.done false))
  | .ok =>
    (w.sessionLock.rlock i).bind fun l => w.transaction.map fun
      | none => w.setTask i (.done false)
      | some (s, _) => { w.setTask i (.stopping .put s .locking) with sessionLock := l }
  | _ => none

/-! #### A step -/

def go (i : ι) (o : Outcome ι) : Option (World ι) :=
  match w.tasks i with
  | .fresh (.session role) => w.sessionGet i role
  | .fresh (.join post) => w.authHandlerHMAC i post
  | .fresh .stop => w.sessionStopPut i o
  | .opened role =>
    match o with
    | .passphrase given => some (w.setTask i (.asked role given))
    | .fails => some (w.setTask i (.done false))
    | _ => none
  | .asked role given =>
    match o with
    | .passphrase generated => w.startSession i role given generated
    | .fails => some (w.setTask i (.done false))
    | _ => none
  | .handling role phase => w.handle i role phase o
  | .leaving => w.stopSession i
  | .stopping by_ s phase => (w.sessions[s]?).bind fun x => w.stop i by_ s x phase o
  | .passed post => w.sessionJoinPost i post o
  | .inside post s => w.registerIntent i post s o
  | .registered post s => w.send i post s o
  | .sending _ _ => if o = .fails then some (w.leave i false) else none
  | .panicked => none
  | .done _ => none

def step : Action ι → Option (World ι)
  | .go i o => w.go i o
  | .hangUp i => some { w with gone := Function.update w.gone i true }

end World

end IncusCloud.Firecloud.Trust
