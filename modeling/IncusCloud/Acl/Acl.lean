import IncusCloud.Acl.Snapshot

/-!
# Who may do what where

The checks of `acl/acl.ts`, each on one snapshot: `decide`, `can`, `explain`, `reach`, `sees` and
`instanceScope`.
-/

namespace IncusCloud.Acl

open Lib (OrdMap replaceFirst beforeLast)

namespace Snapshot

/-- The results of both parents of an instance together: privileges and entries of any. -/
def combine (rs : List Resolution) : Resolution where
  privileges := rs.flatMap (·.privileges)
  decidedBy := (rs.flatMap (·.decidedBy)).foldl (fun out e => if e ∈ out then out else out ++ [e]) []

/-- `owned`: the object is the subject's; `owner` is given for objects without a path of their
own. -/
def owns (s : Snapshot) (owner : Option Subject) (subject : Subject) (path : String) : Bool :=
  owner.or (s.owners.get path) = some subject

/-- `decide`; `owner` is the object's owner, for objects without a path of their own. -/
def decide (s : Snapshot) (subject : Subject) (path : String) (owner : Option Subject) :
    Resolution :=
  match parsePath path with
  | none => ⟨[], []⟩
  | some parsed =>
    if subject ∈ s.disabled then ⟨[], []⟩
    else
      let owned := s.owns owner subject path
      let keys := s.keysOf subject
      let full := chain s.tenantOf parsed
      let sides := match parsed with
        | .inst _ _ _ => s.locatedIn path
        | _ => []
      if sides.isEmpty then resolve keys s.byPath full owned
      else
        -- Its own entries decide alone; otherwise each side is resolved and the results combined.
        let own := resolve keys s.byPath [path] owned
        if !own.decidedBy.isEmpty then own
        else
          combine (resolve keys s.byPath full owned ::
            sides.map fun g => resolve keys s.byPath [path, g] owned)

def privileges (s : Snapshot) (subject : Subject) (path : String) : List Privilege :=
  (s.decide subject path none).privileges

def can (s : Snapshot) (p : Principal) (q : Privilege) (path : String) : Bool :=
  q ∈ s.privileges (subjectOf p) path

/-- `reach`: what a subject holds at `path` or on any path above it. -/
def reach (s : Snapshot) (subject : Subject) (path : String) : List Privilege :=
  match parsePath path with
  | none => []
  | some parsed => (chain s.tenantOf parsed).flatMap (s.privileges subject)

/-- `explain`, its privileges unsorted. -/
def explain (s : Snapshot) (subject : Subject) (path : String) : Resolution :=
  s.decide subject path none

/-! ### Seeing a path -/

/-- `/^\/tenants\/([^/]+)$/`: the slug of a tenant's path. -/
def tenantOfPath (path : String) : Option String :=
  let slug := path.toList.drop "/tenants/".length
  if "/tenants/".toList.isPrefixOf path.toList && !slug.isEmpty && '/' ∉ slug then
    some (String.ofList slug)
  else none

/-- Where one of the subject's entries applies below `path`: the entry's path, a tenant's
projects, the instances on a cluster group's members. -/
def candidates (s : Snapshot) (subject : Subject) (path : String) : List String :=
  ((s.keysOf subject).flatMap s.bySubject).flatMap fun e =>
    (e.path :: ((tenantOfPath e.path).elim [] s.projectsOf ++ s.onGroup e.path)).filter fun x =>
      path = "/" || (path ++ "/").toList.isPrefixOf x.toList

/-- `sees`: some privilege at `path`, or below it where one of the subject's entries applies. -/
def sees (s : Snapshot) (p : Principal) (path : String) : Bool :=
  !(s.privileges (subjectOf p) path).isEmpty ||
    (s.candidates (subjectOf p) path).any fun x => !(s.privileges (subjectOf p) x).isEmpty

end Snapshot

/-! ### The instances a subject may act on -/

/-- Whole projects, minus and plus single instances (keys `<cluster>/<project>[/<name>]`); the
source's `include` is `included`. -/
structure InstanceScope where
  projects : List String
  exclude : List String
  included : List String

namespace InstanceScope

def key (path : String) : String :=
  String.ofList (replaceFirst "/instances/".toList "/".toList
    (replaceFirst "/projects/".toList "/".toList (path.toList.drop "/clusters/".length)))

def projectKey (k : String) : String := String.ofList (beforeLast '/' k.toList)

def selects (o : InstanceScope) (project instanceKey : String) : Prop :=
  instanceKey ∈ o.included ∨ project ∈ o.projects ∧ instanceKey ∉ o.exclude

instance (o : InstanceScope) (p i : String) : Decidable (o.selects p i) :=
  inferInstanceAs (Decidable (_ ∨ _ ∧ _))

end InstanceScope

namespace Snapshot

/-- The instances decided one by one: those with entries of the subject (or its groups), those on
its groups' cluster groups, and those it owns. -/
def singles (s : Snapshot) (subject : Subject) : List String :=
  ((s.keysOf subject).flatMap fun k =>
      (s.bySubject k).flatMap fun e =>
        match parsePath e.path with
        | some (.inst _ _ _) => [e.path]
        | some (.group _ _) => s.onGroup e.path
        | _ => []) ++
    (s.owners.filter fun o => o.2 = subject && "/clusters/".toList.isPrefixOf o.1.toList).map (·.1)

def instanceScope (s : Snapshot) (p : Principal) (q : Privilege) : InstanceScope :=
  let subject := subjectOf p
  let projects := (s.projects.filter fun path => q ∈ s.privileges subject path).map InstanceScope.key
  let singles := (s.singles subject).dedup
  let covered := fun path => InstanceScope.projectKey (InstanceScope.key path) ∈ projects
  { projects
    included := (singles.filter fun path =>
      q ∈ s.privileges subject path && !covered path).map InstanceScope.key
    exclude := (singles.filter fun path =>
      q ∉ s.privileges subject path && covered path).map InstanceScope.key }

end Snapshot

end IncusCloud.Acl
