import IncusCloud.Acl.Acl

/-!
# Incus relations from permissions

`explicitRelations` of `reconcile/grants.ts`: the Incus relations a subject's permissions give on
one cluster, given the subject's resolution on the cluster, its projects and their instances.

The source's relation texts are two enumerations here, one for each of its rank tables: `Relation`
on the server and on projects (`RANK`), `InstanceRelation` on instances (`IRANK`). A grant holds
the texts again.
-/

namespace IncusCloud.Reconcile

open Acl

/-! ### Relations and their ranks -/

/-- A relation on the server or on a project; `none` is the source's `""`. -/
inductive Relation
  | none | viewer | operator | admin
  deriving DecidableEq

namespace Relation

def text : Relation → String
  | none => ""
  | viewer => "viewer"
  | operator => "operator"
  | admin => "admin"

end Relation

def rank : Relation → ℕ
  | .none => 0
  | .viewer => 1
  | .operator => 2
  | .admin => 3

/-- A relation on an instance; `none` is the source's `""`. -/
inductive InstanceRelation
  | none | viewer | user | operator
  deriving DecidableEq

namespace InstanceRelation

def text : InstanceRelation → String
  | none => ""
  | viewer => "viewer"
  | user => "user"
  | operator => "operator"

end InstanceRelation

def iRank : InstanceRelation → ℕ
  | .none => 0
  | .viewer => 1
  | .user => 2
  | .operator => 3

/-- `SERVER`: never Unrestricted user, since Incus's server operator is operator on every project. -/
def onServer : RoleId → Option Relation
  | .administrator => some .admin
  | .clusterOwner => some .admin
  | .operator => some .operator
  | .auditor => some .viewer
  | _ => none

/-- `PROJECT`: never project admin, who could lift the project's restrictions. -/
def onProject : RoleId → Option Relation
  | .administrator => some .operator
  | .clusterOwner => some .operator
  | .operator => some .operator
  | .unrestrictedUser => some .operator
  | .tenantAdmin => some .operator
  | .auditor => some .viewer
  | _ => none

/-- `strongest`: the highest-ranked relation the roles map to; No access among them gives none. -/
def strongest (map : RoleId → Option Relation) (roles : List RoleId) : Relation :=
  ((if .noAccess ∈ roles then [] else roles).map fun r => (map r).getD .none).foldl
    (fun a b => if rank b > rank a then b else a) .none

/-- `instanceRelation`: operator to configure it, user for its console, viewer to see it. -/
def instanceRelation (p : List Privilege) : InstanceRelation :=
  if .instanceConfigure ∈ p then .operator
  else if .instanceConsole ∈ p then .user
  else if .instanceView ∈ p then .viewer
  else .none

/-- `asInstance`: a project relation read as an instance one. -/
def asInstance : Relation → InstanceRelation
  | .none => .none
  | .viewer => .viewer
  | .operator => .operator
  | .admin => .operator

/-! ### Facts and decisions -/

/-- A project on the cluster, with its instances and the objects a User may need to see there. -/
structure ProjectFacts where
  name : Name
  instances : List Name
  shared : List String
  deriving DecidableEq

abbrev ProjectInput := Name ⊕ ProjectFacts

/-- A project given by name has no instances and shares nothing. -/
def factsOf : ProjectInput → ProjectFacts
  | .inl n => ⟨n, [], []⟩
  | .inr f => f

structure Decision where
  roles : List RoleId
  atPath : Option String
  privileges : Option (List Privilege)

structure Grant where
  relation : String
  object : String
  deriving DecidableEq

def userProject : List String :=
  ["can_create_instances", "can_create_storage_volumes", "can_create_storage_buckets",
    "can_view_events", "can_view_operations"]

def serverObject : String := "server:incus"

def projectObject (p : Name) : String := "project:" ++ p.text

def instanceObject (p i : Name) : String := "instance:" ++ p.text ++ "/" ++ i.text

/-! ### `explicitRelations` -/

def decidedBelow (cluster : String) (d : Decision) : Bool :=
  match d.atPath with
  | some a => a ≠ "" && a ≠ "/" && a ≠ formatPath (.cluster cluster)
  | none => false

/-- What `explicitRelations` finds out about one project. -/
structure Per where
  f : ProjectFacts
  relation : Relation
  narrowed : Bool
  instances : List (Name × InstanceRelation)
  user : Bool

section Explicit

variable (cluster : String) (decide : String → Decision)

def serverOf : Relation := strongest onServer (decide (formatPath (.cluster cluster))).roles

def baseOf : Relation := strongest onProject (decide (formatPath (.cluster cluster))).roles

/-- The relation a project's decision gives, before its instances narrow it. -/
def relationOf (f : ProjectFacts) : Relation :=
  let d := decide (projectPath cluster f.name.text)
  if decidedBelow cluster d then strongest onProject d.roles else baseOf cluster decide

def instanceRelationOf (p i : Name) : InstanceRelation :=
  instanceRelation ((decide (instancePath cluster p.text i.text)).privileges.getD [])

def narrowedBy (f : ProjectFacts) : Bool :=
  f.instances.any fun i =>
    iRank (instanceRelationOf cluster decide f.name i) <
      iRank (asInstance (relationOf cluster decide f))

def perOf (x : ProjectInput) : Per :=
  let f := factsOf x
  let d := decide (projectPath cluster f.name.text)
  let relation := relationOf cluster decide f
  let narrowed := narrowedBy cluster decide f
  { f
    relation := if narrowed then .none else relation
    narrowed
    instances := f.instances.map fun i => (i, instanceRelationOf cluster decide f.name i)
    user := relation = .none && .instanceCreate ∈ d.privileges.getD [] }

/-- The server relation stands: there is one, and no project or instance must see less. Without
it every project's relation is its own grant. -/
def wholeOf (projects : List ProjectInput) : Bool :=
  let narrowed := (projects.map (perOf cluster decide)).any fun x =>
    x.narrowed || rank x.relation < rank (baseOf cluster decide)
  !narrowed && serverOf cluster decide ≠ .none

/-- `given`: what the project relation already gives an instance (nothing when narrowed). -/
def givenOf (base : Relation) (whole : Bool) (x : Per) : InstanceRelation :=
  if x.narrowed then .none
  else asInstance (if x.relation ≠ .none then x.relation else if whole then base else .none)

def projectGrants (base : Relation) (whole : Bool) (x : Per) : List Grant :=
  (if x.relation ≠ .none ∧ (whole = false ∨ rank x.relation > rank base) then
      [⟨x.relation.text, projectObject x.f.name⟩] else []) ++
    (if x.user then
      userProject.map (⟨·, projectObject x.f.name⟩) ++ x.f.shared.map (⟨"can_view", ·⟩) else []) ++
    (x.instances.filter fun i => iRank i.2 > iRank (givenOf base whole x)).map fun i =>
      ⟨i.2.text, instanceObject x.f.name i.1⟩

def explicitRelations (projects : List ProjectInput) : List Grant :=
  let whole := wholeOf cluster decide projects
  (if whole then [⟨(serverOf cluster decide).text, serverObject⟩] else []) ++
    (projects.map (perOf cluster decide)).flatMap (projectGrants (baseOf cluster decide) whole)

end Explicit

end IncusCloud.Reconcile
