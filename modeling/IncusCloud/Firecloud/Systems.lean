import IncusCloud.Lib.OrdMap

/-!
# The clusters the systems report

`ServiceClustered` and `ClustersConflict` of `service/system_information.go`. Go meets the entries
of a map in an order of its own, and in another one each time: a `Visit` is one turn of the outer
loop, with the orders of the two inner ones.
-/

namespace IncusCloud.Firecloud

open Lib

abbrev ServiceType := String

/-- The cluster members a system has on record, by name, with their addresses. -/
structure Members where
  entries : OrdMap String String
  distinct : (entries.map (·.1)).Nodup

namespace Members

def none : Members := ⟨[], List.nodup_nil⟩

/-- `m[name]`. -/
def address (m : Members) (name : String) : String := (m.entries.get name).getD ""

end Members

structure SystemServices where
  existingServices : OrdMap ServiceType Members

namespace SystemServices

/-- `info.ExistingServices[service]`. -/
def members (info : SystemServices) (service : ServiceType) : Members :=
  (info.existingServices.get service).getD .none

def serviceClustered (info : SystemServices) (service : ServiceType) : Bool :=
  0 < (info.members service).entries.length

end SystemServices

/-- A system as the outer loop meets it, with the orders in which the inner loops meet the services
and, of each, the members. -/
structure Visit where
  info : SystemServices
  services : List ServiceType
  members : ServiceType → List (String × String)

/-- One service of one system; an error is the early return. -/
def compareFirst (first : OrdMap ServiceType Members) (turn : Visit × ServiceType) :
    Except ServiceType (OrdMap ServiceType Members) :=
  let (v, service) := turn
  -- If a service is not clustered, it cannot conflict.
  if v.info.serviceClustered service = false then .ok first
  else
    match first.get service with
    | none => .ok (first.set service (v.info.members service))
    | some cluster =>
      if (v.members service).any fun e => cluster.address e.1 ≠ e.2 then .error service
      else if cluster.entries.length ≠ (v.info.members service).entries.length then .error service
      else .ok first

def turns (visits : List Visit) : List (Visit × ServiceType) := visits.flatMap fun v => v.services.map fun s => (v, s)

/-- Compares the cluster members reported by each system with those of the first one that has the
service clustered. -/
def clustersConflict (visits : List Visit) : Bool × ServiceType :=
  match (turns visits).foldlM compareFirst [] with
  | .ok _ => (false, "")
  | .error service => (true, service)

end IncusCloud.Firecloud
