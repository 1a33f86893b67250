import IncusCloud.Api.Users
import IncusCloud.Lib.Run

/-!
# Sign-in through upstream providers

`userForUpstream`, `syncMappedGroups` and `resyncProvider` of `identity/federation.ts`, and what
else writes the tables they use: `POST /api/v1/users`, `PUT` and `DELETE` of a group's members and
`PUT /api/v1/identity-providers/:id/mappings`, each as one step. Who may make these requests, a
user's name and the times of logins are left out.

`email`, `verified` and `created` of an identity, `hand` and `removed` are history.
-/

namespace IncusCloud.Identity

open Acl Api

/-- What `userForUpstream` uses of a provider. -/
structure IdentityProvider where
  id : Uuid
  name : String
  createUsers : Bool

structure UpstreamClaims where
  sub : String
  email : Option String
  emailVerified : Bool
  groups : List String

/-- A row of `user_identities`. -/
structure UserIdentity where
  providerId : Uuid
  subject : String
  userId : Uuid
  groups : List String
  email : String
  verified : Bool
  created : Bool

/-- A row of `group_mappings`. -/
structure GroupMapping where
  providerId : Uuid
  claim : String
  groupId : Uuid

/-- A row of `group_members` that is a user's; `providerId` is none when it was added by hand. -/
structure GroupMember where
  groupId : Uuid
  userId : Uuid
  providerId : Option Uuid
  deriving DecidableEq

structure Accounts where
  users : List UserRow
  identities : List UserIdentity
  mappings : List GroupMapping
  members : List GroupMember
  hand : Uuid → Uuid → Bool
  /-- Removed by hand from the user, since the user's last sign-in or re-mapping at the provider. -/
  removed : Uuid → Uuid → Uuid → Bool

inductive SignInOutcome
  | ok (userId : Uuid) (created groupsChanged : Bool)
  | refused (reason : String)

namespace Accounts

def want (s : Accounts) (providerId : Uuid) (claimed : List String) : List Uuid :=
  ((s.mappings.filter fun m => m.providerId = providerId && claimed.contains m.claim).map
    (·.groupId)).dedup

/-- Makes the user's memberships from this provider exactly what its mappings give for `claimed`;
memberships added by hand stay. -/
def syncMappedGroups (s : Accounts) (providerId userId : Uuid) (claimed : List String) :
    Accounts × Bool :=
  let want := s.want providerId claimed
  let mine := s.members.filter fun m => m.userId = userId
  let fromHere := (mine.filter fun m => m.providerId = some providerId).map (·.groupId)
  let any := mine.map (·.groupId)
  let drop := fromHere.filter fun g => g ∉ want
  -- A membership added by hand (or by another provider) already covers the group.
  let add := want.filter fun g => g ∉ any
  let kept := s.members.filter fun m =>
    !(m.userId = userId && m.providerId = some providerId && drop.contains m.groupId)
  ({ s with
      members := kept ++ add.map fun g => ⟨g, userId, some providerId⟩
      removed := fun p g u => if p = providerId ∧ u = userId then false else s.removed p g u },
    drop.length + add.length > 0)

/-- Re-applies a provider's mappings to everyone it signed in, from the groups each last brought. -/
def resyncProvider (s : Accounts) (providerId : Uuid) : Accounts × Bool :=
  (s.identities.filter fun i => i.providerId = providerId).foldl
    (fun (s, changed) i =>
      let (s, now) := s.syncMappedGroups providerId i.userId i.groups
      (s, now || changed))
    (s, false)

def noEmail (provider : IdentityProvider) : String :=
  provider.name ++
    " did not tell IncusCloud your email address. Ask an administrator to add the email scope."

def unverified (provider : IdentityProvider) (email : String) : String :=
  "An IncusCloud account with " ++ email ++ " exists, but " ++ provider.name ++
    " has not verified that address, so it cannot be linked."

def noAccount (email : String) : String :=
  "There is no IncusCloud account for " ++ email ++ ". Ask an administrator to create one."

def linked (s : Accounts) (provider : IdentityProvider) (c : UpstreamClaims) : Option UserIdentity :=
  s.identities.find? fun i => i.providerId = provider.id && i.subject = c.sub

def byEmail (s : Accounts) (email : String) : Option UserRow :=
  s.users.find? fun u => sameEmail u.email email

def link (s : Accounts) (provider : IdentityProvider) (c : UpstreamClaims) (email : String)
    (userId : Uuid) (created : Bool) : Accounts :=
  { s with
    identities := s.identities ++
      [⟨provider.id, c.sub, userId, c.groups, email, c.emailVerified, created⟩] }

/-- The user an upstream account is linked to: the one it was linked to, the one with its verified
email, or a new one, under the id the database gives it. -/
def linkUpstream (s : Accounts) (provider : IdentityProvider) (c : UpstreamClaims) (id : Uuid) :
    Except String (Accounts × Uuid × Bool) :=
  match s.linked provider c with
  | some i => .ok (s, i.userId, false)
  | none =>
    match c.email.filter (· ≠ "") with
    | none => .error (noEmail provider)
    | some email =>
      match s.byEmail email with
      | some u =>
        -- Linking by an email the provider has not verified would let anyone claim any account.
        if c.emailVerified then .ok (s.link provider c email u.id false, u.id, false)
        else .error (unverified provider email)
      | none =>
        if provider.createUsers then
          .ok (link { s with users := s.users ++ [⟨id, email, false⟩] } provider c email id true, id, true)
        else .error (noAccount email)

def setGroups (s : Accounts) (provider : IdentityProvider) (c : UpstreamClaims) : Accounts :=
  { s with
    identities := s.identities.map fun i =>
      if i.providerId = provider.id ∧ i.subject = c.sub then { i with groups := c.groups } else i }

def barred (s : Accounts) (userId : Uuid) : Bool :=
  match s.users.find? fun u => u.id = userId with
  | none => true
  | some u => u.disabled

def userForUpstream (s : Accounts) (provider : IdentityProvider) (c : UpstreamClaims) (id : Uuid) :
    Accounts × SignInOutcome :=
  match s.linkUpstream provider c id with
  | .error reason => (s, .refused reason)
  | .ok (s, userId, created) =>
    if s.barred userId then (s, .refused "This account is disabled")
    else
      let (s, groupsChanged) :=
        (s.setGroups provider c).syncMappedGroups provider.id userId c.groups
      (s, .ok userId created groupsChanged)

/-- The transaction of `PUT` mappings. -/
def setMappings (s : Accounts) (providerId : Uuid) (rules : List (String × Uuid)) : Accounts :=
  { s with
    mappings := (s.mappings.filter fun m => m.providerId ≠ providerId) ++
      rules.dedup.map fun (claim, groupId) => ⟨providerId, claim, groupId⟩ }

/-- Added by hand: a membership a provider's mapping made becomes a lasting one. -/
def putMember (s : Accounts) (groupId userId : Uuid) : Accounts :=
  { s with
    members :=
      if s.members.any fun m => m.groupId = groupId && m.userId = userId then
        s.members.map fun m =>
          if m.groupId = groupId ∧ m.userId = userId then { m with providerId := none } else m
      else s.members ++ [⟨groupId, userId, none⟩]
    hand := fun g u => if g = groupId ∧ u = userId then true else s.hand g u }

def deleteMember (s : Accounts) (groupId userId : Uuid) : Accounts :=
  { s with
    members := s.members.filter fun m => !(m.groupId = groupId && m.userId = userId)
    hand := fun g u => if g = groupId ∧ u = userId then false else s.hand g u
    removed := fun p g u => if g = groupId ∧ u = userId then true else s.removed p g u }

end Accounts

inductive AccountsAction
  | userForUpstream (provider : IdentityProvider) (c : UpstreamClaims) (id : Uuid)
  | createUser (email : String) (id : Uuid)
  | setDisabled (userId : Uuid) (disabled : Bool)
  | putMappings (providerId : Uuid) (rules : List (String × Uuid))
  | putMember (groupId userId : Uuid)
  | deleteMember (groupId userId : Uuid)

/-- The requests, one after the other; one that is refused changes nothing. New ids are fresh. -/
def Accounts.step (s : Accounts) : AccountsAction → Option Accounts
  | .userForUpstream provider c id =>
    if s.users.any fun u => u.id = id then none else some (s.userForUpstream provider c id).1
  | .createUser email id =>
    if (s.users.any fun u => sameEmail u.email email) || s.users.any fun u => u.id = id then none
    else some { s with users := s.users ++ [⟨id, email, false⟩] }
  | .setDisabled userId disabled =>
    some { s with
      users := s.users.map fun u => if u.id = userId then { u with disabled := disabled } else u }
  | .putMappings providerId rules => some ((s.setMappings providerId rules).resyncProvider providerId).1
  | .putMember groupId userId =>
    if s.users.any fun u => u.id = userId then some (s.putMember groupId userId) else none
  | .deleteMember groupId userId => some (s.deleteMember groupId userId)

end IncusCloud.Identity
