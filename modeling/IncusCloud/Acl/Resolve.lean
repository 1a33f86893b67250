import IncusCloud.Acl.Catalog
import IncusCloud.Lib.FirstHit

/-!
# Resolution along a chain

`acl/resolve.ts`: an entry is a role for a subject on a path; walking a chain from the most
specific path, the first level holding an entry for one of the subject's keys decides.
-/

namespace IncusCloud.Acl

open Lib (firstHit)

inductive SubjectKind
  | user | service | group | tenant
  deriving DecidableEq

/-- A subject key, `<kind>:<id>`. -/
structure Subject where
  kind : SubjectKind
  id : String
  deriving DecidableEq

/-- Where an entry comes from: the table of entries, or one of today's role tables. -/
inductive Source
  | acl | platformRole | tenantMembership | serviceAccount
  deriving DecidableEq

structure Entry where
  id : String
  path : String
  subject : Subject
  role : RoleId
  propagate : Bool
  source : Source
  deriving DecidableEq

structure Resolution where
  privileges : List Privilege
  decidedBy : List Entry
  deriving DecidableEq

/-- A chain's levels: the path, and whether it is the first (`i === 0`). -/
def levels : List String → List (String × Bool)
  | [] => []
  | p :: ps => (p, true) :: ps.map (·, false)

def here (subjects : List Subject) (byPath : String → List Entry) (l : String × Bool) :
    List Entry :=
  (byPath l.1).filter fun e => e.subject ∈ subjects && (l.2 || e.propagate)

/-- At the deciding level the subject's own entries (its first key) beat its groups'. -/
def preferOwn (subjects : List Subject) (es : List Entry) : List Entry :=
  let own := es.filter fun e => some e.subject = subjects.head?
  if own.isEmpty then es else own

/-- The privileges the deciding entries give together: No access among them means nothing;
owner-only privileges count on what the subject owns. -/
def privilegesOf (owned : Bool) (es : List Entry) : List Privilege :=
  if es.any fun e => e.role = .noAccess then []
  else es.flatMap fun e => e.role.privileges ++ if owned then e.role.ownedOnly else []

def resolve (subjects : List Subject) (byPath : String → List Entry) (chain : List String)
    (owned : Bool) : Resolution :=
  let es := preferOwn subjects (firstHit (here subjects byPath) (levels chain))
  { privileges := privilegesOf owned es, decidedBy := es }

end IncusCloud.Acl
