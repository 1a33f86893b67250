import IncusCloud.Reconcile.Grants

/-!
# The grants of subjects with explicit entries

`addExplicit` of `reconcile/cluster.ts`: every subject that an explicit entry reaches, directly or
through a group, gets its Incus relations on the cluster from the ACL instead of from today's role
groups.
-/

namespace IncusCloud.Reconcile

open Acl Lib

/-- A subject's resolution on a path, as `explicitRelations` takes it. -/
def decisionAt (s : Snapshot) (key : Subject) (path : String) : Decision :=
  let d := s.explain key path
  { roles := d.decidedBy.map (·.role)
    atPath := d.decidedBy.head?.map (·.path)
    privileges := some d.privileges }

def decidedPaths (cluster : String) (facts : List ProjectFacts) : List String :=
  formatPath (.cluster cluster) :: facts.flatMap fun p =>
    projectPath cluster p.name.text ::
      p.instances.map fun i => instancePath cluster p.name.text i.text

/-- `decided`: the subject's resolutions by path. -/
def decided (s : Snapshot) (key : Subject) (cluster : String) (facts : List ProjectFacts) :
    OrdMap String Decision :=
  OrdMap.ofList ((decidedPaths cluster facts).map fun path => (path, decisionAt s key path))

def relationsOf (s : Snapshot) (key : Subject) (cluster : String) (facts : List ProjectFacts) :
    List Grant :=
  explicitRelations cluster
    (fun path => ((decided s key cluster facts).get path).getD ⟨[], none, none⟩) (facts.map .inr)

/-- The users and service accounts an entry for `k` makes explicit. -/
def explicitMembers (db : Db) (k : Subject) : List Subject :=
  match k.kind with
  | .group =>
    (db.groupMembers.filter fun m => m.groupId.text = k.id).map fun m =>
      subjectKey m.service m.memberId
  | .tenant =>
    ((db.tenantMembers.filter fun m => m.tenantId.text = k.id).map fun m => ⟨.user, m.userId.text⟩)
      ++ ((db.serviceAccounts.filter fun a => a.tenantId.map (·.text) = some k.id).map fun a =>
        ⟨.service, a.id.text⟩)
  | _ => [k]

def explicitKeys (db : Db) : List Subject :=
  ((((load db).entries.filter fun e => e.source = .acl).map (·.subject)).dedup.flatMap
    (explicitMembers db)).dedup

/-- The Incus user name of a subject (the token's `sub`). -/
def incusUser (db : Db) (key : Subject) : Option String :=
  match key.kind with
  | .service => (db.serviceAccounts.find? fun a => a.id.text = key.id).map (·.clientId)
  | _ => some key.id

/-- The listed projects that may be granted on, with the inventory's instances: never a placement
here that could not be granted. -/
def grantableFacts (db : Db) (cluster : ClusterRow) (granted listed : List Name) :
    List ProjectFacts :=
  let taken := ((db.placements.filter fun p => p.clusterId = cluster.id).map (·.project)).filter
    fun p => p ∉ granted
  (listed.filter fun p => p ∉ taken).map fun name =>
    { name
      instances := (db.instances.filter fun i =>
        i.clusterId = cluster.id && i.project = name).map (·.name)
      shared := [] }

/-- `addExplicit`: the explicit subjects' relations. `granted` are the placed projects that may be
granted on, `listed` the projects the cluster lists and `sharedObjects` what it lists in one. -/
def addExplicit (db : Db) (cluster : ClusterRow) (granted listed : List Name)
    (sharedObjects : Name → List String) : List (String × Grant) :=
  let s := load db
  let facts := grantableFacts db cluster granted listed
  let subjects := (explicitKeys db).filterMap fun key =>
    if key ∈ s.disabled then none else (incusUser db key).map fun name => (name, key)
  -- What a User must see to create in a project: listed only where a User is decided.
  let facts := facts.map fun p =>
    if subjects.any fun x =>
        .user ∈ (decisionAt s x.2 (projectPath cluster.name.text p.name.text)).roles then
      { p with shared := sharedObjects p.name }
    else p
  subjects.flatMap fun x => (relationsOf s x.2 cluster.name.text facts).map (x.1, ·)

end IncusCloud.Reconcile
