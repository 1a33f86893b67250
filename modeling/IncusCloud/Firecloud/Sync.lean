import IncusCloud.Firecloud.HostIds
import IncusCloud.Lib.Interleave

/-!
# The Incus server configuration

`service/sync.go` and the part of `setupCluster` that configures the server: any number of syncs and
setups, call by call, with other clients that change the configuration. An update replaces the
whole configuration that the member shows: the cluster's keys and the member's own. A key that is
not set reads as the empty text.

`given`, `cleared`, `read` and `found` are history.
-/

namespace IncusCloud.Firecloud

open Lib

/-! ### Keys -/

def keyNorthbound : String := "network.ovn.northbound_connection"
def keyCACert : String := "network.ovn.ca_cert"
def keyClientCert : String := "network.ovn.client_cert"
def keyClientKey : String := "network.ovn.client_key"
def keyOVSConnection : String := "network.ovs.connection"

/-- The Open vSwitch database socket of the MicroOVN snap. -/
def ovsConnection : String := "unix:/var/snap/microovn/common/run/switch/db.sock"

structure OVNState where
  northbound : String
  caCert : String
  clientCert : String
  clientKey : String

/-- A server's configuration, as a client gets it and puts it back. -/
abbrev Config := OrdMap String String

def Config.value (c : Config) (key : String) : String := (OrdMap.get c key).getD ""

def Config.same (c c' : Config) : Bool := ((c ++ c').map (·.1)).all fun k => c.value k = c'.value k

/-- `c[k] = v` for each. -/
def Config.setAll (c : Config) (changes : Config) : Config := changes.foldl (fun c e => OrdMap.set c e.1 e.2) c

def OVNState.globalConfig (s : OVNState) : Config :=
  [(keyNorthbound, s.northbound), (keyCACert, s.caCert), (keyClientCert, s.clientCert),
    (keyClientKey, s.clientKey)]

def trimmed (s : String) : String := String.ofList (trimSpace s.toList)

/-- As `ReadOVN` returns it: the certificates are files. -/
def OVNState.trimmed (s : OVNState) : OVNState :=
  { s with
    caCert := Firecloud.trimmed s.caCert
    clientCert := Firecloud.trimmed s.clientCert
    clientKey := Firecloud.trimmed s.clientKey }

/-- The keys of `want` whose values differ in `current`, white space around them aside. -/
def changes (current want : Config) : Config :=
  want.filter fun e => trimmed (current.value e.1) ≠ trimmed e.2

/-! ### The servers -/

structure Servers where
  isLocal : String → Bool
  isLocal_ovs : isLocal keyOVSConnection = true
  isLocal_ovn : ∀ k ∈ [keyNorthbound, keyCACert, keyClientCert, keyClientKey, keyLVMHostIDs], isLocal k = false

structure ConfigWorld (ι : Type) where
  cluster : Config
  member : String → Config
  /-- What the last writer that is no Syncer gave a key, as a member shows it. -/
  given : String → String → String
  cleared : List String
  /-- The configuration that a process read to write it back. -/
  read : ι → Config
  found : ι → OVNState

namespace ConfigWorld

variable {ι : Type} (site : Servers) (w : ConfigWorld ι)

def view (m : String) : Config :=
  (w.cluster.filter fun e => !site.isLocal e.1) ++ ((w.member m).filter fun e => site.isLocal e.1)

def replace (m : String) (put : Config) : ConfigWorld ι :=
  { w with
    cluster := put.filter fun e => !site.isLocal e.1
    member := Function.update w.member m (put.filter fun e => site.isLocal e.1) }

def clears (m : String) (put : Config) : List String :=
  ((w.view site m).map (·.1)).filter fun k => (w.view site m).value k ≠ "" ∧ put.value k = ""

def synced (m : String) (put : Config) : ConfigWorld ι :=
  { w.replace site m put with cleared := w.clears site m put ++ w.cleared }

def gave (m : String) (put : Config) : ConfigWorld ι :=
  { w.replace site m put with
    given := fun m' k => if site.isLocal k ∧ m' ≠ m then w.given m' k else put.value k }

end ConfigWorld

/-! ### Calls -/

inductive ConfigCall
  /-- A step of a sync that is not about the configuration, with what it applied or why it failed. -/
  | syncCeph
  | connect
  /-- `GetServer`, and whether the server is clustered. -/
  | getServer
  /-- `UseTarget(…).GetServer`; the configuration is its own ETag. -/
  | getTarget (member : String)
  | updateTarget (member : String) (put etag : Config)
  | updateServer (put : Config)
  | hasOVN
  | clusterMembers
  | readOVN
  | centrals
  | ensureLVMLocking (hostID : ℕ)

def ConfigCall.Answer : ConfigCall → Type
  | syncCeph => List String × Option String
  | getServer => Config × Bool
  | getTarget _ => Config
  | hasOVN => Bool
  | clusterMembers => List (String × String)
  | readOVN => OVNState
  | centrals => String
  | ensureLVMLocking _ => List String × Option String
  | _ => Unit

/-- How a call goes, and what it finds where that is not followed here. -/
structure ConfigOutcome where
  fails : Bool := false
  took : Bool := false
  applied : List String × Option String := ([], none)
  clustered : Bool := true
  hasOVN : Bool := true
  members : List (String × String) := []
  ovn : OVNState := ⟨"", "", "", ""⟩
  centrals : String := ""

inductive ConfigJob
  /-- Of the daemon on this member, with the snaps that are installed. -/
  | sync (member : String) (ceph ovn : Bool)
  | setup (member : String) (systems : List String) (ovn lvmCluster : Bool)

def ConfigJob.home : ConfigJob → String
  | sync m _ _ => m
  | setup m _ _ _ => m

namespace ConfigWorld

variable {ι : Type} (site : Servers) (w : ConfigWorld ι) (job : ConfigJob)

def update (m : String) (put : Config) : ConfigWorld ι :=
  match job with
  | .sync _ _ _ => w.synced site m put
  | .setup _ _ _ _ => w.gave site m put

def look {α : Type} (o : ConfigOutcome) (a : α) : Except String α × ConfigWorld ι :=
  (if o.fails then .error "failed" else .ok a, w)

def write (m : String) (put : Config) (o : ConfigOutcome) : Except String Unit × ConfigWorld ι :=
  if o.fails then (.error "failed", if o.took then w.update site job m put else w)
  else (.ok (), w.update site job m put)

def writeMatched (m : String) (put etag : Config) (o : ConfigOutcome) :
    Except String Unit × ConfigWorld ι :=
  if (w.view site m).same etag then w.write site job m put o else (.error "ETag doesn't match", w)

variable [DecidableEq ι]

def readServer (i : ι) (m : String) (o : ConfigOutcome) : Except String (Config × Bool) × ConfigWorld ι :=
  { w with read := Function.update w.read i (w.view site m) }.look o (w.view site m, o.clustered)

/-- `ReadOVN`. -/
def readState (i : ι) (o : ConfigOutcome) : Except String OVNState × ConfigWorld ι :=
  if o.ovn.northbound = "" then (.error "MicroOVN's ovn.env has no OVN_NB_CONNECT yet", w)
  else { w with found := Function.update w.found i o.ovn.trimmed }.look o o.ovn.trimmed

end ConfigWorld

section

variable {ι : Type} [DecidableEq ι] (site : Servers) (jobs : ι → ConfigJob)

def configAnswer (i : ι) (c : ConfigCall) (w : ConfigWorld ι) (o : ConfigOutcome) :
    Except String c.Answer × ConfigWorld ι :=
  match c with
  | .syncCeph => (.ok o.applied, w)
  | .connect => w.look o ()
  | .getServer => w.readServer site i (jobs i).home o
  | .getTarget m => w.look o (w.view site m)
  | .updateTarget m put etag => w.writeMatched site (jobs i) m put etag o
  | .updateServer put => w.write site (jobs i) (jobs i).home put o
  | .hasOVN => (.ok o.hasOVN, w)
  | .clusterMembers => w.look o o.members
  | .readOVN => w.readState i o
  | .centrals => w.look o o.centrals
  | .ensureLVMLocking _ => (.ok o.applied, w)

/-- What other clients do: an update of a member's configuration. -/
structure ConfigAct where
  member : String
  put : Config

def configAct (w : ConfigWorld ι) (a : ConfigAct) : Option (ConfigWorld ι) :=
  some (w.gave site a.member a.put)

def configuring : Team ι ConfigCall ConfigCall.Answer String (ConfigWorld ι) ConfigOutcome ConfigAct :=
  ⟨fun i c w o => some (configAnswer site jobs i c w o), configAct site⟩

end

/-! ### Syncs -/

abbrev Configuring := Handler ConfigCall ConfigCall.Answer String Unit

namespace Configuring

open Handler (call)

def syncCeph : Configuring (List String × Option String) := call ConfigCall.syncCeph
def connect : Configuring Unit := call ConfigCall.connect
def getServer : Configuring (Config × Bool) := call ConfigCall.getServer
def getTarget (m : String) : Configuring Config := call (ConfigCall.getTarget m)
def updateTarget (m : String) (put etag : Config) : Configuring Unit :=
  call (ConfigCall.updateTarget m put etag)
def updateServer (put : Config) : Configuring Unit := call (ConfigCall.updateServer put)
def hasOVN : Configuring Bool := call ConfigCall.hasOVN
def clusterMembers : Configuring (List (String × String)) := call ConfigCall.clusterMembers
def readOVN : Configuring OVNState := call ConfigCall.readOVN
def centrals : Configuring String := call ConfigCall.centrals
def ensureLVMLocking (hostID : ℕ) : Configuring (List String × Option String) :=
  call (ConfigCall.ensureLVMLocking hostID)

end Configuring

open Configuring
open Handler (when)

def firstOnlineMember : Configuring String := do
  let members ← clusterMembers
  let names := (members.filter fun m => m.2.toList.map Char.toLower = "online".toList).map (·.1)
  match names.insertionSort (· ≤ ·) with
  | [] => throw "No online Incus cluster member"
  | name :: _ => pure name

/-- `err`, once what was applied before it is kept. -/
def attempt {α : Type} (m : Configuring α) : Configuring (Except String α) :=
  tryCatch (do
    let a ← m
    pure (.ok a)) fun e => pure (.error e)

def applying {α : Type} (applies : Bool) (skipped : α) (part : Configuring α) : Configuring α :=
  if applies then part else pure skipped

/-- What a part of a sync returns: what it applied, and its error. -/
abbrev Applied := List String × Option String

variable (name : String)

def syncGlobal (server : Config) : Configuring Applied := do
  let writer ← firstOnlineMember
  if writer ≠ name then pure ([], none)
  else do
    let state ← readOVN
    let changes := changes server state.globalConfig
    if changes = [] then pure ([], none)
    else do
      -- The keys are said to be set where this fails too.
      let updated ← attempt (updateServer (server.setAll changes))
      pure (changes.map fun e => "set " ++ e.1, match updated with | .error e => some e | .ok _ => none)

def syncSocket : Configuring (List String) := do
  let config ← getTarget name
  if config.value keyOVSConnection = ovsConnection then pure []
  else do
    updateTarget name (OrdMap.set config keyOVSConnection ovsConnection) config
    pure ["set " ++ keyOVSConnection]

def syncOVN (server : Config) : Configuring Applied := do
  let there ← hasOVN
  if !there then pure ([], none)
  else do
    let socket ← attempt (syncSocket name)
    match socket with
    | .error e => pure ([], some e)
    | .ok applied => do
      let changed ← attempt (syncGlobal name server)
      match changed with
      | .error e => pure (applied, some e)
      | .ok (changes, e) => pure ((applied ++ changes).insertionSort (· ≤ ·), e)

def syncLVM (server : Config) : Configuring Applied :=
  let value := server.value keyLVMHostIDs
  if value = "" then pure ([], none)
  else
    match parseHostIDs value with
    | .error _ => pure ([], some "Invalid host_id")
    | .ok ids =>
      match ids.get name with
      | none => pure ([], some ("No sanlock host_id assigned to \"" ++ name ++ "\""))
      | some hostID => ensureLVMLocking hostID

abbrev SyncStatus := List String × List String

def SyncStatus.add (s : SyncStatus) (part : String) (a : Applied) : SyncStatus :=
  (s.1 ++ a.1, s.2 ++ a.2.toList.map (part ++ ": " ++ ·))

/-- `Syncer.Sync`, where the snaps are installed. -/
def syncAll (ceph ovn : Bool) : Configuring SyncStatus := do
  let first ← applying ceph ([], none) syncCeph
  let status := SyncStatus.add ([], []) "Ceph" first
  let server ← attempt (do
    connect
    getServer)
  match server with
  | .error e => pure (status.add "Incus" ([], some e))
  | .ok (config, clustered) =>
    if !clustered then pure status
    else do
      let network ← applying ovn ([], none) (syncOVN name config)
      let locking ← syncLVM name config
      pure ((status.add "OVN" network).add "Clustered LVM" locking)

/-! ### Setups -/

def setMemberConfig (member key value : String) : Configuring Unit := do
  let config ← getTarget member
  if config.value key = value then pure ()
  else updateTarget member (OrdMap.set config key value) config

variable (systems : List String)

def setupOVN : Configuring Config := do
  let conns ← centrals
  let state ← readOVN
  systems.forM fun name => setMemberConfig name keyOVSConnection ovsConnection
  pure { state with northbound := conns }.globalConfig

def setupLVM (server : Config) : Configuring Config :=
  match parseHostIDs (server.value keyLVMHostIDs) with
  | .error _ => throw "Invalid host_id"
  | .ok existing =>
    match assignHostIDs existing systems with
    | .error _ => throw "No sanlock host_id left"
    | .ok ids => pure [(keyLVMHostIDs, formatHostIDs ids)]

/-- The part of `setupCluster` that updates the server's configuration. -/
def setupConfig (ovn lvmCluster : Bool) : Configuring Unit := do
  let (server, _) ← getServer
  let network ← applying ovn [] (setupOVN systems)
  let locking ← applying lvmCluster [] (setupLVM systems server)
  let config := Config.setAll network locking
  when (config.any fun e => server.value e.1 ≠ e.2) (updateServer (server.setAll config))

def ConfigJob.prog : ConfigJob → Configuring Unit
  | sync m ceph ovn => do
    let _ ← syncAll m ceph ovn
    pure ()
  | setup _ systems ovn lvmCluster => setupConfig systems ovn lvmCluster

def allConfiguring {ι : Type} (jobs : ι → ConfigJob) (w : ConfigWorld ι) :
    Procs ι ConfigCall ConfigCall.Answer String (ConfigWorld ι) (Except String Unit × Unit) :=
  ⟨w, fun i => (jobs i).prog ()⟩

end IncusCloud.Firecloud
