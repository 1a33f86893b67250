import IncusCloud.Acl.Paths
import IncusCloud.Acl.Resolve

/-!
# The tables permissions are read from

`db/schema.ts`, as far as `acl/acl.ts` and the handlers that change permissions read it. A table is
the list of its rows; columns no modelled function reads are left out. Two kinds of column carry
their invariant: an id is a UUID in the spelling the database gives it, and a name is free of
slashes, as Incus and the enrolment form have them.
-/

namespace IncusCloud

open Acl (SubjectKind Subject parsePath)

/-! ### Ids -/

/-- `[0-9a-f]`, either case. -/
def isHex (c : Char) : Bool :=
  ('0' ≤ c && c ≤ '9') || ('a' ≤ c && c ≤ 'f') || ('A' ≤ c && c ≤ 'F')

/-- `isUuid`: 8-4-4-4-12 hexadecimal digits, either case. -/
def isUuid (s : String) : Bool :=
  s.toList.length = 36 &&
    s.toList.zipIdx.all fun x => if x.2 ∈ [8, 13, 18, 23] then x.1 = '-' else isHex x.1

/-- The database writes a UUID in lower case whatever case it was given in. -/
def canonical (s : String) : String := String.ofList (s.toList.map Char.toLower)

/-- A `uuid` column. -/
structure Uuid where
  text : String
  valid : isUuid text = true ∧ canonical text = text
  deriving DecidableEq

/-- The id a text denotes in a query, which compares UUIDs and not their spellings. -/
def Uuid.ofText (s : String) : Option Uuid :=
  if h : isUuid (canonical s) = true ∧ canonical (canonical s) = canonical s then
    some ⟨canonical s, h⟩
  else none

theorem Uuid.text_of_ofText {s : String} {u : Uuid} (h : Uuid.ofText s = some u) :
    u.text = canonical s := by
  unfold Uuid.ofText at h
  split_ifs at h
  obtain rfl := Option.some.inj h
  rfl

theorem Uuid.ext_text {a b : Uuid} (h : a.text = b.text) : a = b := by
  cases a
  cases b
  simpa using h

/-! ### Names -/

structure Name where
  text : String
  noSlash : '/' ∉ text.toList
  deriving DecidableEq

theorem Name.ext_text {a b : Name} (h : a.text = b.text) : a = b := by
  cases a
  cases b
  simpa using h

/-! ### Rows -/

inductive PlatformRole
  | admin | operator | viewer
  deriving DecidableEq

inductive TenantRole
  | owner | admin | member | viewer
  deriving DecidableEq

structure UserRow where
  id : Uuid
  email : String
  disabled : Bool
  deriving DecidableEq

structure PlatformRoleRow where
  userId : Uuid
  role : PlatformRole
  deriving DecidableEq

structure TenantRow where
  id : Uuid
  slug : Name
  deriving DecidableEq

structure TenantMemberRow where
  tenantId : Uuid
  userId : Uuid
  role : TenantRole
  deriving DecidableEq

/-- `platformRole` is unchecked text, for accounts without a tenant. -/
structure ServiceAccountRow where
  id : Uuid
  clientId : String
  tenantId : Option Uuid
  platformRole : Option String
  disabled : Bool
  deriving DecidableEq

structure GroupRow where
  id : Uuid
  deriving DecidableEq

/-- A user (`service = false`) or a service account in a group: exactly one of the two columns. -/
structure GroupMemberRow where
  groupId : Uuid
  service : Bool
  memberId : Uuid
  deriving DecidableEq

/-- An explicit entry. `acl_entry_one_subject` leaves exactly one of its four subject columns set:
`kind` says which. Its path was parsed when it was created. -/
structure AclEntryRow where
  id : Uuid
  path : String
  kind : SubjectKind
  subjectId : Uuid
  role : String
  propagate : Bool
  createdBy : Option Uuid
  parses : (parsePath path).isSome = true
  deriving DecidableEq

structure ClusterRow where
  id : Uuid
  name : Name
  deriving DecidableEq

structure PlacementRow where
  tenantId : Uuid
  clusterId : Uuid
  project : Name
  deriving DecidableEq

/-- Who owns an instance; `none` when its owner was deleted. -/
structure InstanceOwnerRow where
  clusterId : Uuid
  project : Name
  name : Name
  owner : Option (Bool × Uuid)
  deriving DecidableEq

structure K8sClusterRow where
  tenantId : Uuid
  name : Name
  createdBy : Subject
  deriving DecidableEq

structure InstanceRow where
  clusterId : Uuid
  project : Name
  name : Name
  location : String
  deriving DecidableEq

structure ClusterMemberRow where
  clusterId : Uuid
  name : String
  groups : List Name
  deriving DecidableEq

/-- The database, as far as permissions are concerned, with the primary keys the proofs rest on. -/
structure Db where
  users : List UserRow := []
  platformRoles : List PlatformRoleRow := []
  tenants : List TenantRow := []
  tenantMembers : List TenantMemberRow := []
  serviceAccounts : List ServiceAccountRow := []
  groups : List GroupRow := []
  groupMembers : List GroupMemberRow := []
  aclEntries : List AclEntryRow := []
  clusters : List ClusterRow := []
  placements : List PlacementRow := []
  instanceOwners : List InstanceOwnerRow := []
  k8sClusters : List K8sClusterRow := []
  instances : List InstanceRow := []
  clusterMembers : List ClusterMemberRow := []
  aclEntries_ids : (aclEntries.map (·.id)).Nodup := by decide
  tenantMembers_keys : (tenantMembers.map fun m => (m.tenantId, m.userId)).Nodup := by decide
  deriving DecidableEq

/-! ### Queries -/

/-- `xs` joined with the rows of `ys` that `on` pairs them with. -/
def innerJoin {α β : Type} (xs : List α) (ys : List β) (on : α → β → Bool) : List (α × β) :=
  xs.flatMap fun x => (ys.filter (on x)).map (x, ·)

theorem mem_innerJoin {α β : Type} {xs : List α} {ys : List β} {on : α → β → Bool} {x : α} {y : β} :
    (x, y) ∈ innerJoin xs ys on ↔ x ∈ xs ∧ y ∈ ys ∧ on x y = true := by
  simp only [innerJoin, List.mem_flatMap, List.mem_map, List.mem_filter, Prod.mk.injEq]
  constructor
  · rintro ⟨a, ha, b, ⟨hb, hon⟩, rfl, rfl⟩
    exact ⟨ha, hb, hon⟩
  · rintro ⟨hx, hy, hon⟩
    exact ⟨x, hx, y, ⟨hy, hon⟩, rfl, rfl⟩

/-! ### Rows the counterexamples share -/

def userU : Uuid := ⟨"00000000-0000-0000-0000-00000000000a", by decide⟩

def clusterC : ClusterRow := ⟨⟨"00000000-0000-0000-0000-0000000000c0", by decide⟩, ⟨"c", by decide⟩⟩

def nameA : Name := ⟨"a", by decide⟩

def nameI : Name := ⟨"i", by decide⟩

def nameT : Name := ⟨"t", by decide⟩

/-- Instance `i` of project `a` on `clusterC`. -/
def instanceI : InstanceRow := ⟨clusterC.id, nameA, nameI, "n1"⟩

def idA1 : Uuid := ⟨"00000000-0000-0000-0000-0000000000a1", by decide⟩

def idB1 : Uuid := ⟨"00000000-0000-0000-0000-0000000000b1", by decide⟩

def idB2 : Uuid := ⟨"00000000-0000-0000-0000-0000000000b2", by decide⟩

def idD1 : Uuid := ⟨"00000000-0000-0000-0000-0000000000d1", by decide⟩

def idE1 : Uuid := ⟨"00000000-0000-0000-0000-0000000000e1", by decide⟩

def idE2 : Uuid := ⟨"00000000-0000-0000-0000-0000000000e2", by decide⟩

theorem parsePath_clusterC : (parsePath "/clusters/c").isSome = true := by decide

theorem aclEntries_ids_nil : (([] : List AclEntryRow).map (·.id)).Nodup := by decide

theorem tenantMembers_keys_nil :
    (([] : List TenantMemberRow).map fun m => (m.tenantId, m.userId)).Nodup := by decide

end IncusCloud
