import IncusCloud.Firecloud.SelectableTable

/-!
# Selecting the systems that join

`askJoinIntents` and `initiatingSession` (`cmd/firecloud/ask.go`, `session.go`) when the operator is
asked, and the certificates that `handleInitiatingSession` (`api/session.go`) allows for what was
confirmed: intents arrive, each is kept by its name and shown as a row, and the rows that the
operator selects are joined back to the intents.

The reading of certificates is a parameter, and so is what the confirmation of an intent needs
besides.
-/

namespace IncusCloud.Firecloud

open Lib

def goString (text : String) : Bytes := text.toList.flatMap String.utf8EncodeChar

structure SessionJoinPost where
  name : Bytes
  version : Bytes
  address : Bytes
  certificate : Bytes
  services : OrdMap Bytes Bytes
  deriving DecidableEq

structure Certificates (Cert : Type) where
  parse : Bytes → Option Cert
  fingerprint : Cert → Bytes

/-- An intent that cannot be read is refused by `sessionJoinPost`. -/
def Certificates.Reads {Cert : Type} (x509 : Certificates Cert) (intent : SessionJoinPost) : Prop :=
  (x509.parse intent.certificate).isSome = true

instance {Cert : Type} (x509 : Certificates Cert) (intent : SessionJoinPost) : Decidable (x509.Reads intent) := by
  unfold Certificates.Reads
  infer_instance

/-- The first twelve digits; of what is shorter, nothing. -/
def shortFingerprint (fingerprint : Bytes) : Option Bytes :=
  if fingerprint.length < 12 then none else some (fingerprint.take 12)

/-! ### The table of intents -/

def intentHeader : List Bytes := [goString "NAME", goString "ADDRESS", goString "FINGERPRINT"]

variable {Cert : Type}

def intentRow (x509 : Certificates Cert) (intent : SessionJoinPost) : List Bytes :=
  [intent.name, intent.address,
    (((x509.parse intent.certificate).map x509.fingerprint).bind shortFingerprint).getD []]

/-- The table and the map of intents; an intent that was put into the map and whose row was not sent
is pending. What was received, what was shown and what the operator marked is history. -/
structure AskJoin where
  table : SelectableTable
  joinIntents : OrdMap Bytes SessionJoinPost
  pending : Option SessionJoinPost
  received : List SessionJoinPost
  shown : List SessionJoinPost
  marked : MarkedTable

inductive AskEvent
  /-- `renderIntentsInteractive` reads an intent. -/
  | receive (intent : SessionJoinPost)
  | sendUpdate
  | press (key : TableKey)
  | retry

namespace AskJoin

/-- The first `table.Render`. -/
def start : AskJoin where
  table := ((newSelectableTable intentHeader []).opened none).init
  joinIntents := []
  pending := none
  received := []
  shown := []
  marked := .fresh []

def send (a : AskJoin) (msg : TableMsg) : Option AskJoin :=
  if a.table.active then (a.table.step msg).map fun table => { a with table := table, marked := a.marked.handle msg }
  else none

def receive (x509 : Certificates Cert) (a : AskJoin) (intent : SessionJoinPost) : Option AskJoin :=
  if a.pending = none ∧ x509.Reads intent then
    some { a with
      joinIntents := a.joinIntents.set intent.name intent
      pending := some intent
      received := a.received ++ [intent] }
  else none

def sendUpdate (x509 : Certificates Cert) (a : AskJoin) : Option AskJoin :=
  a.pending.bind fun intent =>
    (a.send (.insert (intentRow x509 intent))).map fun a => { a with pending := none, shown := a.shown ++ [intent] }

/-- `range` is the order in which Go ranges over a map's keys. -/
def retry (range : Finset ℤ → List ℤ) (a : AskJoin) : Option AskJoin :=
  if a.table.active = false ∧ a.table.answer range = some (.ok []) then
    some { a with table := (a.table.opened none).init, marked := .fresh a.table.rawRows }
  else none

def step (x509 : Certificates Cert) (range : Finset ℤ → List ℤ) (a : AskJoin) : AskEvent → Option AskJoin
  | .receive intent => a.receive x509 intent
  | .sendUpdate => a.sendUpdate x509
  | .press key => a.send (.key key)
  | .retry => a.retry range

def systems (a : AskJoin) (answers : List (OrdMap Bytes Bytes)) : List SessionJoinPost :=
  answers.flatMap fun answer =>
    (a.joinIntents.filter fun e => e.1 = (answer.get (goString "NAME")).getD []).map (·.2)

/-- What `askJoinIntents` returns once the table has finished. -/
def result (a : AskJoin) (range : Finset ℤ → List ℤ) : Option (List SessionJoinPost) :=
  if a.table.active then none
  else match a.table.answer range with
    | some (.ok answers) => some (a.systems answers)
    | _ => none

end AskJoin

/-! ### What is trusted -/

/-- The certificates that `handleInitiatingSession` allows by the names of the confirmed intents,
and the error that it stops at. -/
def allowIntents (x509 : Certificates Cert) (confirm : SessionJoinPost → Except String Unit) :
    OrdMap Bytes Cert → List SessionJoinPost → OrdMap Bytes Cert × Option String
  | trustStore, [] => (trustStore, none)
  | trustStore, intent :: confirmed =>
    match x509.parse intent.certificate with
    | none => (trustStore, some "Failed to parse certificate of confirmed intent")
    | some cert =>
      match confirm intent with
      | .error err => (trustStore.set intent.name cert, some err)
      | .ok () => allowIntents x509 confirm (trustStore.set intent.name cert) confirmed

structure ServerInfo (Cert : Type) where
  version : Bytes
  name : Bytes
  address : Bytes
  services : OrdMap Bytes Bytes
  certificate : Cert

def serverInfo (x509 : Certificates Cert) (intent : SessionJoinPost) : Option (ServerInfo Cert) :=
  (x509.parse intent.certificate).map fun cert =>
    ⟨intent.version, intent.name, intent.address, intent.services, cert⟩

/-- The systems that `initiatingSession` registers by their names. -/
def registerSystems (x509 : Certificates Cert) :
    OrdMap Bytes (ServerInfo Cert) → List SessionJoinPost → Except String (OrdMap Bytes (ServerInfo Cert))
  | systems, [] => .ok systems
  | systems, intent :: confirmed =>
    match serverInfo x509 intent with
    | none => .error "Failed to parse certificate"
    | some info => registerSystems x509 (systems.set intent.name info) confirmed

end IncusCloud.Firecloud
