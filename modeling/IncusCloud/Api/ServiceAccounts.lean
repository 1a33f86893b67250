import IncusCloud.Acl.Guards

/-!
# Service accounts

`POST /api/v1/service-accounts/:id/rotate` of `api/service-accounts.ts`: a new secret for an
account, for whoever manages it.
-/

namespace IncusCloud.Api

open Acl
open Lib (need found)

def tenantPathOf (s : Snapshot) (tenantId : Uuid) : Option String :=
  ((s.ids.tenantSlugs.find? fun t => t.1 = tenantId).filter fun t => t.2 ≠ "").map fun t =>
    "/tenants/" ++ t.2

/-- `manages`: `tenant.members` on its tenant for tenant accounts, `platform.users` otherwise. -/
def manages (s : Snapshot) (p : Principal) (sa : ServiceAccountRow) : Bool :=
  match sa.tenantId with
  | none => s.can p .platformUsers "/"
  | some t =>
    match tenantPathOf s t with
    | none => false
    | some path => s.can p .tenantMembers path

/-- `load`: 403 for platform viewers, who know the account exists; 404 for anyone else. -/
def loadAccount (s : Snapshot) (db : Db) (p : Principal) (id : String) :
    Except ApiError ServiceAccountRow := do
  need (isUuid id = true) (notFound "Not found")
  let ⟨sa, _⟩ ← found (db.serviceAccounts.find? fun a => a.id.text = canonical id)
    (notFound "Not found")
  need (manages s p sa = true)
    (if s.can p .platformView "/" then forbidden else notFound "Not found")
  pure sa

/-- `POST /api/v1/service-accounts/:id/rotate`: the account, and the secret that now acts as it.
`updateClient` is Hydra's. -/
def rotate (s : Snapshot) (db : Db) (updateClient : ServiceAccountRow → String → Except ApiError Unit)
    (p : Principal) (id secret : String) : Except ApiError (ServiceAccountRow × String) := do
  let sa ← loadAccount s db p id
  updateClient sa secret
  pure (sa, secret)

end IncusCloud.Api
