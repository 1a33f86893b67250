import IncusCloud.Lib.Percent
import IncusCloud.Lib.Fields
import IncusCloud.Lib.Text
import Mathlib.Data.Rat.Defs

/-!
# The federation facade's naming

Embedding of `federation/rewrite.ts`: what belongs to one cluster is written `<name>@<cluster>`.
Requests lose the qualifiers before they reach their cluster (`stripRequest`, `stripBody`); JSON
responses gain them on the way back (`qualifyUrl`, `walk`, `qualifyResponse`).

A string of the source is the list of its characters; a JavaScript object is the list of its
entries in `Object.entries` order, so its keys are distinct.
-/

namespace IncusCloud.Federation

open Lib

abbrev Text := List Char

scoped instance lawfulText : LawfulBEq Text := inferInstance

/-- What `NAME` of `api/clusters.ts` accepts: `^[a-z][a-z0-9-]{0,61}[a-z0-9]$`. -/
def isClusterName (s : Text) : Bool :=
  2 ≤ s.length && s.length ≤ 63 && s.head?.any Char.isLower &&
    s.getLast?.any (fun ch => ch.isLower || ch.isDigit) &&
    s.all fun ch => ch.isLower || ch.isDigit || ch = '-'

structure ClusterName where
  text : Text
  valid : isClusterName text = true

def qualify (name cluster : Text) : Text := name ++ '@' :: cluster

/-- Splits at the last `@`, only when what follows names a known cluster. -/
def split (s : Text) (clusters : List Text) : Text × Option Text :=
  let cluster := (s.reverse.takeWhile (· ≠ '@')).reverse
  let name := (s.reverse.dropWhile (· ≠ '@')).tail.reverse
  -- `at > 0`: there is an `@`, and something before it.
  if name ≠ [] ∧ cluster ∈ clusters then (name, some cluster) else (s, none)

def decode (s : Text) : Text :=
  (decodeURIComponent (s.map fun ch => if ch = '+' then ' ' else ch)).getD s

structure Param where
  k : Text
  v : Option Text
  raw : Text

def param (p : Text) : Param :=
  match cut '=' p with
  | (_, none) => { k := decode p, v := none, raw := p }
  | (k, some v) => { k := decode k, v := some (decode v), raw := p }

structure Parsed where
  segs : List Text
  params : List Param

def parse (pathAndQuery : Text) : Parsed :=
  let (path, query) := cut '?' pathAndQuery
  { segs := path.splitOn '/'
    params :=
      match query.getD [] with
      | [] => []
      | query => (query.splitOn '&').map param }

/-- `found.add(c)`, when there is a cluster to add. -/
def addFound (found : List Text) : Option Text → List Text
  | none => found
  | some c => if c = [] ∨ c ∈ found then found else found ++ [c]

/-- The clusters a path names, through qualified segments, `project` or `target`. -/
def clustersIn (pathAndQuery : Text) (clusters : List Text) : List Text :=
  let { segs, params } := parse pathAndQuery
  let found := segs.foldl (fun found s => addFound found (split (decode s) clusters).2) []
  params.foldl (fun found p =>
    match p.v with
    | none => found
    | some v =>
      if (p.k = "project".toList ∨ p.k = "target".toList) ∧ v ≠ [] then
        addFound found (split v clusters).2
      else found) found

inductive Target where
  | one (cluster : Text)
  | all
  | conflict (clusters : List Text)
deriving DecidableEq

/-- Which cluster a facade request is for: its own qualifiers first, then the page it was made from,
otherwise all of them. `referer` is that page's path, `new URL(referer, "http://x").pathname`,
empty where it does not parse. -/
def targetOf (pathAndQuery : Text) (referer : Option Text) (clusters : List Text)
    (scope : Option Text := none) : Target :=
  match clustersIn pathAndQuery clusters with
  | [own] => .one own
  | own@(_ :: _) => .conflict own
  | [] =>
    if scope = some "all".toList then .all
    else
      match scope.filter fun scope => scope ≠ [] ∧ scope ∈ clusters with
      | some scope => .one scope
      | none =>
        match referer with
        | none => .all
        | some path =>
          match clustersIn path clusters with
          | seen :: _ => .one seen
          | [] =>
            -- A cluster's console page: `/inventory/<cluster>/…`
            if "/inventory/".toList <+: path then
              let page := (path.drop "/inventory/".length).takeWhile (· ≠ '/')
              if page ≠ [] ∧ decode page ∈ clusters then .one (decode page) else .all
            else .all

/-! ### Requests -/

def stripName (s cluster : Text) : Text :=
  if '@' :: cluster <:+ s then s.take (s.length - cluster.length - 1) else s

/-- A path and query from its segments and parameters. -/
def render (segs params : List Text) : Text :=
  let path := ['/'].intercalate segs
  if params = [] then path else path ++ '?' :: ['&'].intercalate params

def stripSeg (cluster s : Text) : Text :=
  let d := decode s
  let n := stripName d cluster
  if n = d then s else encodeURIComponent n

def stripParam (cluster : Text) (standalone : Bool) (p : Param) : Option Text :=
  match p.v with
  | none => some p.raw
  | some v =>
    let n := stripName v cluster
    -- A standalone server has one member, named after the cluster: it takes no target.
    if p.k = "target".toList ∧ standalone ∧ n = cluster then none
    else if n = v then some p.raw
    else some (encodeURIComponent p.k ++ '=' :: encodeURIComponent n)

/-- The path and query to send to `cluster`: its qualifiers removed. -/
def stripRequest (pathAndQuery cluster : Text) (standalone : Bool := false) : Text :=
  let { segs, params } := parse pathAndQuery
  render (segs.map (stripSeg cluster)) (params.filterMap (stripParam cluster standalone))

/-- A JSON value with strings of type `σ`. -/
inductive Json (σ : Type) where
  | null
  | bool (b : Bool)
  | num (n : ℚ)
  | str (s : σ)
  | arr (xs : List (Json σ))
  | obj (o : List (Text × Json σ))

/-- `v.startsWith("/1.0/")`. -/
def isUrl (s : Text) : Bool := "/1.0/".toList.isPrefixOf s

def stripText (cluster s : Text) : Text :=
  if isUrl s then stripRequest s cluster else stripName s cluster

mutual

/-- A request body for `cluster`: strings qualified with it lose the qualifier; URLs are stripped
like paths. -/
def stripBody (cluster : Text) : Json Text → Json Text
  | .str s => .str (stripText cluster s)
  | .arr xs => .arr (stripBodies cluster xs)
  | .obj o => .obj (stripEntries cluster o)
  | v => v

def stripBodies (cluster : Text) : List (Json Text) → List (Json Text)
  | [] => []
  | x :: xs => stripBody cluster x :: stripBodies cluster xs

def stripEntries (cluster : Text) : List (Text × Json Text) → List (Text × Json Text)
  | [] => []
  | (k, x) :: o => (k, stripBody cluster x) :: stripEntries cluster o

end

/-! ### Responses -/

def globalNameAt : OrdMap String ℕ :=
  [("storage-pools", 3), ("operations", 3), ("projects", 3), ("certificates", 3), ("warnings", 3),
    ("network-integrations", 3)]

def clusterNameAt : OrdMap String ℕ := [("members", 4), ("groups", 4)]

/-- Whether a URL's entity lives in a project (and so carries `project`). -/
def projectScoped (segs : List Text) : Bool :=
  let kind := segs.getD 2 []
  if kind = [] then false
  else if kind = "storage-pools".toList then 4 < segs.length
  else !isIn (String.ofList kind) globalNameAt &&
    !(["cluster", "events", "resources", "metrics", "auth"].contains (String.ofList kind))

structure Ctx where
  cluster : Text
  standalone : Bool

def q (s : Text) (c : Ctx) : Text := if s = [] then s else qualify s c.cluster

def member (s : Text) (c : Ctx) : Text :=
  if c.standalone ∧ (s = "none".toList ∨ s = []) then qualify c.cluster c.cluster else q s c

/-- Where the name of a URL's global entity sits. A name every object has (`constructor`, …) gives
an inherited value, which is no index. -/
def nameAt (segs : List Text) : Option ℕ :=
  let kind := segs.getD 2 []
  if kind = "cluster".toList then clusterNameAt.get (String.ofList (segs.getD 3 []))
  else globalNameAt.get (String.ofList kind)

def isProject (p : Param) : Bool := p.v ≠ none ∧ p.k = "project".toList

def qualifyParam (c : Ctx) (p : Param) : Text :=
  match p.v with
  | none => p.raw
  | some v =>
    if p.k = "project".toList then "project=".toList ++ q v c
    else if p.k = "target".toList then "target=".toList ++ member v c
    else p.raw

def qualifySegs (c : Ctx) (segs : List Text) : List Text :=
  match nameAt segs with
  | none => segs
  | some i => segs.modify i fun s => if s = [] then s else q (decode s) c

def qualifyParams (c : Ctx) (segs : List Text) (params : List Param) : List Text :=
  let out := params.map (qualifyParam c)
  if !params.any isProject && projectScoped segs then
    out ++ ["project=".toList ++ qualify "default".toList c.cluster]
  else out

/-- Qualifies one `/1.0/…` URL: global names, `project` (default when absent), `target`. -/
def qualifyUrl (url : Text) (c : Ctx) : Text :=
  let { segs, params } := parse url
  let segs := qualifySegs c segs
  render segs (qualifyParams c segs params)

/-- `typeof o.id === "string" && "resources" in o`. -/
def isOperation (o : List (Text × Json Text)) : Bool :=
  o.any (fun | (k, .str _) => k = "id".toList | _ => false) && o.any (·.1 = "resources".toList)

/-- What `walk` makes of the entry `k: x`, where `deep` is what it makes of `x` as a nested value. -/
def walkEntry (c : Ctx) (identity : List Text) (isOperation : Bool) (k : Text)
    (x deep : Json Text) : Json Text :=
  let rest := if k = "config".toList ∨ k = "expanded_config".toList then x else deep
  match x with
  | .str s =>
    if k = "project".toList ∨ k = "pool".toList ∨ k ∈ identity then .str (q s c)
    else if k = "location".toList then .str (member s c)
    else if k = "id".toList ∧ isOperation then .str (q s c)
    else rest
  | .arr xs =>
    if k = "locations".toList ∨ ("server_name".toList ∈ identity ∧ k = "groups".toList) ∨
        ("members".toList ∈ identity ∧ k = "members".toList) then
      .arr (xs.map fun
        | .str m => .str (if k = "groups".toList then q m c else member m c)
        | m => m)
    else rest
  | _ => rest

mutual

def walk (c : Ctx) (identity : List Text) : Json Text → Json Text
  | .str s => .str (if isUrl s then qualifyUrl s c else s)
  | .arr xs => .arr (walkAll c identity xs)
  | .obj o => .obj (walkEntries c identity (isOperation o) o)
  | v => v

def walkAll (c : Ctx) (identity : List Text) : List (Json Text) → List (Json Text)
  | [] => []
  | x :: xs => walk c identity x :: walkAll c identity xs

/-- The entries of an object, each assigned as `out[k] = …`: an assignment to `__proto__` makes no
entry. -/
def walkEntries (c : Ctx) (identity : List Text) (isOperation : Bool) :
    List (Text × Json Text) → List (Text × Json Text)
  | [] => []
  | (k, x) :: o =>
    if k = "__proto__".toList then walkEntries c identity isOperation o
    else
      (k, walkEntry c identity isOperation k x (walk c [] x)) :: walkEntries c identity isOperation o

end

/-- Which identity fields name global things, from what was asked for. -/
def identityOf (path : Text) : List Text :=
  let segs := (cut '?' path).1.splitOn '/'
  let kind := segs.getD 2 []
  if kind = "projects".toList ∨ kind = "network-integrations".toList ∨
      (kind = "storage-pools".toList ∧ segs.length ≤ 4) then ["name".toList]
  else if kind = "certificates".toList then ["fingerprint".toList]
  else if kind = "warnings".toList then ["uuid".toList]
  else if kind = "cluster".toList ∧ segs.getD 3 [] = "members".toList then ["server_name".toList]
  else if kind = "cluster".toList ∧ segs.getD 3 [] = "groups".toList then
    ["name".toList, "members".toList]
  else []

/-- An operations list: `{running: [...], success: [...]}`. -/
def isOperations (o : List (Text × Json Text)) : Bool :=
  !o.any (·.1 = "id".toList) && o.all (fun | (_, .arr _) => true | _ => false) && o ≠ []

/-- The response's own objects carry the identity fields; nested ones do not. -/
def walkMetadata (c : Ctx) (identity : List Text) (x : Json Text) : Json Text :=
  match x with
  | .arr xs => .arr (xs.map (walk c identity))
  | .obj o =>
    if isOperations o then
      .obj (o.map fun
        | (k, .arr l) => (k, .arr (l.map (walk c identity)))
        | (k, l) => (k, walk c identity l))
    else walk c identity x
  | x => walk c identity x

def qualifyResponse (path : Text) (body : Json Text) (cluster : Text) (standalone : Bool := false) :
    Json Text :=
  let c : Ctx := { cluster, standalone }
  match body with
  | .obj o =>
    -- The envelope's own fields like any object's; its metadata by what was asked for.
    let rest := o.filter (·.1 ≠ "metadata".toList)
    let out := walkEntries c [] (isOperation rest) rest
    match o.find? (·.1 = "metadata".toList) with
    | none => .obj out
    | some (k, metadata) => .obj (out ++ [(k, walkMetadata c (identityOf path) metadata)])
  | body => walk c [] body

end IncusCloud.Federation
