import IncusCloud.Lib.Text

/-!
# Permission paths

`acl/paths.ts`: the text a path is stored as, what it names (`AclPath`), and the paths whose
entries can decide for it (`chain`).
-/

namespace IncusCloud.Acl

open Lib (split)

inductive AclPath
  | root
  | platform
  | cluster (cluster : String)
  | group (cluster group : String)
  | project (cluster project : String)
  | inst (cluster project inst : String)
  | tenant (tenant : String)
  | kubernetes (tenant name : String)
  deriving DecidableEq

/-- `NAME`: `/^[A-Za-z0-9][A-Za-z0-9._-]{0,62}$/`. -/
def isName (s : String) : Bool :=
  match s.toList with
  | [] => false
  | c :: cs =>
    c.isAlphanum && decide (cs.length ≤ 62) &&
      cs.all fun c => c.isAlphanum || c = '.' || c = '_' || c = '-'

/-- The branches of `parsePath` on a path's segments: the names stand at the odd places. -/
def parseParts (parts : List String) : Option AclPath :=
  if parts.zipIdx.any fun x => x.2 % 2 = 1 && !isName x.1 then none
  else
    match parts with
    | ["clusters", b] => some (.cluster b)
    | ["clusters", b, "groups", d] => some (.group b d)
    | ["clusters", b, "projects", d] => some (.project b d)
    | ["clusters", b, "projects", d, "instances", f] => some (.inst b d f)
    | ["tenants", b] => some (.tenant b)
    | ["tenants", b, "kubernetes", d] => some (.kubernetes b d)
    | _ => none

def parsePath (s : String) : Option AclPath :=
  if s = "/" then some .root
  else if s = "/platform" then some .platform
  else if s.toList.head? ≠ some '/' then none
  else parseParts (split '/' (String.ofList (s.toList.drop 1)))

def formatPath : AclPath → String
  | .root => "/"
  | .platform => "/platform"
  | .cluster c => "/clusters/" ++ c
  | .group c g => "/clusters/" ++ c ++ "/groups/" ++ g
  | .project c p => "/clusters/" ++ c ++ "/projects/" ++ p
  | .inst c p i => "/clusters/" ++ c ++ "/projects/" ++ p ++ "/instances/" ++ i
  | .tenant t => "/tenants/" ++ t
  | .kubernetes t n => "/tenants/" ++ t ++ "/kubernetes/" ++ n

/-- The tenant's level of a project's chain, for a project that is a tenant's. -/
def tenantLevel : Option String → List String
  | some t => if t = "" then [] else ["/tenants/" ++ t]
  | none => []

/-- `chain`: the paths whose entries can decide for `p`, most specific first. A tenant's project
sits under the tenant too, more specifically than under its cluster. -/
def chain (tenantOf : String → String → Option String) : AclPath → List String
  | .root => ["/"]
  | .platform => [formatPath .platform, "/"]
  | .tenant t => [formatPath (.tenant t), "/"]
  | .cluster c => [formatPath (.cluster c), "/"]
  | .group c g => [formatPath (.group c g), formatPath (.cluster c), "/"]
  | .kubernetes t n => [formatPath (.kubernetes t n), formatPath (.tenant t), "/"]
  | .project c p =>
    formatPath (.project c p) :: tenantLevel (tenantOf c p) ++ [formatPath (.cluster c), "/"]
  | .inst c p i =>
    formatPath (.inst c p i) :: formatPath (.project c p) :: tenantLevel (tenantOf c p) ++
      [formatPath (.cluster c), "/"]

end IncusCloud.Acl
