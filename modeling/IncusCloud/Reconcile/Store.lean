import IncusCloud.Lib.Fields
import IncusCloud.Reconcile.Cluster

/-!
# A cluster's grant store

`desiredGrants` and `diffTuples` of `reconcile/grants.ts`, and the passes of `reconcile/cluster.ts`
that bring a cluster's OpenFGA store to what the permissions give. One pass after another reads
what the store holds, from the store or from the record in `cluster_grants`, writes the difference
and records what it wrote; any call of a pass may fail or be its last. The write is not a
transaction: any part of it may have been applied, whether it returns or throws.

Incus edits its own tuples at any time, and between passes another store may take the place of the
one that was open. `dirty` and `completed` are history.
-/

namespace IncusCloud.Reconcile

open Lib

/-! ### Tuples -/

structure Tuple where
  user : String
  relation : String
  object : String
  deriving DecidableEq

/-- The parts of a tuple that stand before a bar of its key hold none. -/
structure Tuple.Barless (t : Tuple) : Prop where
  user : '|' ∉ t.user.toList
  relation : '|' ∉ t.relation.toList

instance (t : Tuple) : Decidable t.Barless :=
  decidable_of_iff ('|' ∉ t.user.toList ∧ '|' ∉ t.relation.toList)
    ⟨fun h => ⟨h.1, h.2⟩, fun h => ⟨h.user, h.relation⟩⟩

def grantPrefix : String := "incuscloud-"

def tenantGroup (tenantId role : String) : String := grantPrefix ++ "tenant-" ++ tenantId ++ "-" ++ role

def platformGroup (role : String) : String := grantPrefix ++ "platform-" ++ role

structure Hex where
  text : String
  valid : ∀ c ∈ text.toList, isHex c = true

/-- `aclGroup`; `sha` is the first twelve digits of a text's SHA-256. -/
def aclGroup (sha : String → Hex) (relation object : String) : String :=
  grantPrefix ++ "acl-" ++ (sha (relation ++ "|" ++ object)).text

def projectRelation : OrdMap String String :=
  [("owner", "operator"), ("admin", "operator"), ("member", "operator"), ("viewer", "viewer")]

def platformRoles : List String := ["admin", "operator", "viewer"]

/-- `GrantFacts`. A subject is a user's id or `sa-` and an account's, and the relations are those
of `explicitRelations`: none holds a bar. -/
structure GrantFacts where
  placements : List (Uuid × String)
  members : List (Uuid × String × String)
  platform : List (String × String)
  acl : List (String × Grant)
  members_barless : ∀ m ∈ members, '|' ∉ m.2.1.toList
  platform_barless : ∀ m ∈ platform, '|' ∉ m.1.toList
  acl_barless : ∀ a ∈ acl, '|' ∉ a.1.toList ∧ '|' ∉ a.2.relation.toList

def groupGrant (group relation object : String) : Tuple :=
  ⟨"group:" ++ group ++ "#member", relation, object⟩

def membership (subject group : String) : Tuple := ⟨"user:" ++ subject, "member", "group:" ++ group⟩

/-- The tuples of explicit entries: each group's grant with its first subject. -/
def aclTuples (sha : String → Hex) (acl : List (String × Grant)) : List Tuple :=
  (acl.foldl (fun (out, defined) a =>
    let group := aclGroup sha a.2.relation a.2.object
    (out ++ (if group ∈ defined then [] else [groupGrant group a.2.relation a.2.object]) ++
      [membership a.1 group], defined ++ [group])) (([], []) : List Tuple × List String)).1

/-- The grant tuples a cluster store should hold for IncusCloud. -/
def desiredGrants (sha : String → Hex) (f : GrantFacts) : List Tuple :=
  (f.placements.flatMap fun p =>
      projectRelation.map fun r => groupGrant (tenantGroup p.1.text r.1) r.2 ("project:" ++ p.2)) ++
    ((f.members.filter fun m => m.1 ∈ f.placements.map (·.1) ∧ isIn m.2.2 projectRelation).map
      fun m => membership m.2.1 (tenantGroup m.1.text m.2.2)) ++
    (platformRoles.map fun role => groupGrant (platformGroup role) role serverObject) ++
    ((f.platform.filter fun p => p.2 ∈ platformRoles).map fun p =>
      membership p.1 (platformGroup p.2)) ++
    aclTuples sha f.acl

/-- Tuples IncusCloud wrote: anything granting to, or naming, one of its groups. -/
def isManaged (t : Tuple) : Bool :=
  ("group:" ++ grantPrefix).toList.isPrefixOf t.user.toList ||
    ("group:" ++ grantPrefix).toList.isPrefixOf t.object.toList

def key (t : Tuple) : String := t.user ++ "|" ++ t.relation ++ "|" ++ t.object

/-- `new Map(tuples.map((t) => [key(t), t]))`. -/
def byKey (ts : List Tuple) : OrdMap String Tuple := OrdMap.ofList (ts.map fun t => (key t, t))

/-- What to write and delete to reach `desired`; never deletes tuples IncusCloud does not own. -/
def diffTuples (desired current : List Tuple) : List Tuple × List Tuple :=
  let want := byKey desired
  let have_ := byKey current
  ((want.filter fun e => !have_.any fun h => h.1 = e.1).map (·.2),
    (have_.filter fun e => (!want.any fun h => h.1 = e.1) && isManaged e.2).map (·.2))

/-! ### Passes -/

inductive SyncPhase
  | idle
  | selected (fgaStoreId : Option ℕ) (grantsScannedAt : Option Int)
  | opened (newStore : Bool) (grantsScannedAt : Option Int)
  /-- Incus has uploaded its model; what is desired and whether to scan is known. -/
  | gathered (desired : List Tuple) (scan : Bool)
  | diffed (desired writes deletes : List Tuple) (scan : Bool)
  | written (desired : List Tuple) (scan : Bool)

structure GrantSync where
  storeId : ℕ
  store : List Tuple
  fgaStoreId : Option ℕ
  grantsScannedAt : Option Int
  grants : List Tuple
  phase : SyncPhase
  /-- A write to the store has begun, or a new one was opened, and nothing is recorded since. -/
  dirty : Bool
  completed : Option (List Tuple)

inductive SyncAction
  | begin
  /-- `openStore`; for a new one the row is updated and the record deleted, in one transaction. -/
  | openStore
  | gather (facts : GrantFacts) (now : Int)
  /-- What the store holds is read, and the difference computed. -/
  | diff
  /-- `store.write`: what of it is applied, and whether it returns. -/
  | write (applied removed : List Tuple) (returns : Bool)
  /-- The record is written; `returns`: the pass is not cut off right after. -/
  | record (now : Int) (returns : Bool)
  | stop
  | incus (tuples : List Tuple)
  /-- Another store takes the place of the one that was open. -/
  | replace (tuples : List Tuple)

namespace GrantSync

/-- `scanIntervalMs`. -/
def scanInterval : Int := 3600000

def scanDue (newStore : Bool) (grantsScannedAt : Option Int) (now : Int) : Bool :=
  newStore || grantsScannedAt.all fun t => now - t ≥ scanInterval

/-- One step; `sha` is the digest `aclGroup` takes. -/
def step (sha : String → Hex) (s : GrantSync) : SyncAction → Option GrantSync
  | .begin =>
    match s.phase with
    | .idle =>
      some { s with phase := .selected s.fgaStoreId s.grantsScannedAt, completed := none }
    | _ => none
  | .openStore =>
    match s.phase with
    | .selected fgaStoreId scannedAt =>
      if fgaStoreId = some s.storeId then some { s with phase := .opened false scannedAt }
      else
        some
          { s with
            phase := .opened true scannedAt, fgaStoreId := some s.storeId, grants := []
            dirty := true }
    | _ => none
  | .gather facts now =>
    match s.phase with
    | .opened newStore scannedAt =>
      some { s with phase := .gathered (desiredGrants sha facts) (scanDue newStore scannedAt now) }
    | _ => none
  | .diff =>
    match s.phase with
    | .gathered desired scan =>
      let current := if scan then s.store.filter isManaged else s.grants
      let d := diffTuples desired current
      some { s with phase := .diffed desired d.1 d.2 scan }
    | _ => none
  | .write applied removed returns =>
    match s.phase with
    | .diffed desired writes deletes scan =>
      if writes = [] ∧ deletes = [] then
        -- Nothing to write; without a scan nothing is recorded either.
        if scan then some { s with phase := .written desired scan }
        else some { s with phase := .idle, completed := some desired }
      else if applied ⊆ writes ∧ removed ⊆ deletes then
        some
          { s with
            store := s.store.filter (· ∉ removed) ++ applied
            phase := if returns then .written desired scan else .idle
            dirty := true }
      else none
    | _ => none
  | .record now returns =>
    match s.phase with
    | .written desired scan =>
      some
        { s with
          grants := desired.dedup
          grantsScannedAt := if scan then some now else s.grantsScannedAt
          phase := .idle, dirty := false
          completed := if returns then some desired else none }
    | _ => none
  | .stop => some { s with phase := .idle, completed := none }
  | .incus tuples =>
    some { s with store := s.store.filter isManaged ++ tuples.filter fun t => !isManaged t }
  | .replace tuples =>
    match s.phase with
    | .idle =>
      -- What it holds of IncusCloud's, IncusCloud wrote.
      if ∀ t ∈ tuples, isManaged t = true → t.Barless then
        some { s with storeId := s.storeId + 1, store := tuples, completed := none }
      else none
    | _ => none

def enrolled : GrantSync := ⟨0, [], none, none, [], .idle, false, none⟩

end GrantSync

end IncusCloud.Reconcile
