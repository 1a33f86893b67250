import IncusCloud.Federation.Rewrite

/-!
# Merging fanned-out reads

Embedding of `federation/merge.ts`: lists concatenate (operation lists by status), a project's state
is summed, other single objects come from the first cluster that has them. `none`: the function
throws. What is not a number is written as `null`.
-/

namespace IncusCloud.Federation

open Lib

abbrev Obj := OrdMap Text (Json Text)

structure Answer where
  cluster : Text
  status : ℕ
  json : Option Obj

structure Merged where
  status : ℕ
  body : Json Text

def sync (metadata : Json Text) : Merged where
  status := 200
  body := .obj [("type".toList, .str "sync".toList), ("status".toList, .str "Success".toList),
    ("status_code".toList, .num 200), ("operation".toList, .str []), ("error_code".toList, .num 0),
    ("error".toList, .str []), ("metadata".toList, metadata)]

/-- `error`. -/
def failure (status : ℕ) (msg : String) : Merged where
  status := status
  body := .obj [("type".toList, .str "error".toList), ("error".toList, .str msg.toList),
    ("error_code".toList, .num status)]

/-- The properties of a value; `null` has none, and reading one throws. -/
def props : Json Text → Option Obj
  | .null => none
  | .obj o => some o
  | _ => some []

/-- `Object.entries(x ?? {})`. -/
def entries : Option (Json Text) → Obj
  | some (.obj o) => o
  | _ => []

/-- `x ?? []`. -/
def elements : Option (Json Text) → List (Json Text)
  | some (.arr xs) => xs
  | _ => []

def objectNames : List Text := objectPrototype.map String.toList

/-! ### `sumState` -/

/-- `a + b`. -/
def plus : Option (Json Text) → Option (Json Text) → Json Text
  | some (.num a), some (.num b) => .num (a + b)
  | _, _ => .null

/-- `a < 0`. -/
def isNegative : Option (Json Text) → Bool
  | some (.num a) => a < 0
  | _ => false

def addResource (resources : Obj) (e : Text × Json Text) : Option Obj :=
  match resources.get e.1 with
  | some cur =>
    (props e.2).map fun v =>
      let o := entries (some cur)
      let usage := plus (o.get "usage".toList) (v.get "usage".toList)
      let limit :=
        if isNegative (o.get "limit".toList) || isNegative (v.get "limit".toList) then .num (-1)
        else plus (o.get "limit".toList) (v.get "limit".toList)
      resources.set e.1 (.obj ((o.set "usage".toList usage).set "limit".toList limit))
  | none =>
    if e.1 ∈ objectNames then (props e.2).map fun _ => resources
    else some (resources.set e.1 (.obj (entries (some e.2))))

/-- Sums projects' `state.resources` usage; a limit is unlimited (-1) when any is. -/
def sumState (states : List (Json Text)) : Option (Json Text) := do
  let fields ← states.mapM props
  let resources ← (fields.flatMap fun s => entries (s.get "resources".toList)).foldlM addResource []
  pure (.obj (OrdMap.set (fields.headD []) "resources".toList (.obj resources)))

/-! ### Single objects -/

/-- The server as one federated, clustered Incus: what every cluster supports, no one cluster's
config. -/
def federatedServer (servers : List Obj) : Obj :=
  let first := servers.headD []
  let strings (s : Obj) : List Text := (elements (s.get "api_extensions".toList)).filterMap fun
    | .str t => some t
    | _ => none
  let extensions := (strings first).eraseDups.filter fun e => servers.all fun s => (strings s).contains e
  let isTrusted (s : Obj) : Bool :=
    match s.get "auth".toList with
    | some (.str t) => t = "trusted".toList
    | _ => false
  let base := first.set "api_extensions".toList (.arr (extensions.map .str))
  let named := if servers.any isTrusted then base.set "auth".toList (.str "trusted".toList) else base
  let environment := ((entries (first.get "environment".toList)).set "server_clustered".toList (.bool true)).set
    "server_name".toList (.str "incuscloud".toList)
  (named.set "config".toList (.obj [])).set "environment".toList (.obj environment)

def noServer : Obj :=
  [("api_extensions".toList, .arr []), ("api_status".toList, .str "stable".toList),
    ("api_version".toList, .str "1.0".toList), ("auth".toList, .str "trusted".toList), ("public".toList, .bool false),
    ("environment".toList,
      .obj [("server_clustered".toList, .bool true), ("server_name".toList, .str "incuscloud".toList)])]

/-- A project name on several clusters, as one project: the first's settings, everyone's users. -/
def mergedProject (name : Text) (same : List Obj) : Obj :=
  (((same.headD []).set "name".toList (.str name)).set "description".toList
      (.str (name ++ (" on " ++ toString same.length ++ " clusters").toList))).set
    "used_by".toList (.arr (same.flatMap fun p => elements (p.get "used_by".toList)))

/-! ### `merge` -/

/-- `a.status === 200 && a.json?.type === "sync"`. -/
def Answer.isOk (a : Answer) : Bool :=
  a.status = 200 &&
    match a.json.bind (·.get "type".toList) with
    | some (.str t) => t = "sync".toList
    | _ => false

def Answer.metadata (a : Answer) : Json Text := ((a.json.bind (·.get "metadata".toList)).getD .null)

def okAnswers (answers : List (Option Answer)) : List Answer := (answers.filterMap id).filter Answer.isOk

/-- `metas.flat()`. -/
def flat (metas : List (Json Text)) : List (Json Text) :=
  metas.flatMap fun
    | .arr xs => xs
    | m => [m]

def isArray : Json Text → Bool
  | .arr _ => true
  | _ => false

/-- Operation lists: `{running: [...], success: [...]}`. -/
def isOperationLists (metas : List (Json Text)) : Bool :=
  metas.all fun
    | .obj o => o.all fun e => isArray e.2
    | _ => false

/-- One status of one operation list. What every object has is found, and is no list. -/
def addOperations (out : Obj) (e : Text × Json Text) : Option Obj :=
  match out.get e.1 with
  | some l => some (out.set e.1 (.arr (elements (some l) ++ elements (some e.2))))
  | none =>
    if e.1 ∈ objectNames then none else some (out.set e.1 (.arr (elements (some e.2))))

inductive ProjectPath
  | project (name : Text)
  | state (name : Text)
  deriving DecidableEq

/-- `^/1.0/projects/([^/]+)(/state)?$`. -/
def projectPath (path : Text) : Option ProjectPath :=
  match path.splitOn '/' with
  | [a, b, c, name] =>
    if a = [] ∧ b = "1.0".toList ∧ c = "projects".toList ∧ name ≠ [] then some (.project name) else none
  | [a, b, c, name, d] =>
    if a = [] ∧ b = "1.0".toList ∧ c = "projects".toList ∧ name ≠ [] ∧ d = "state".toList then some (.state name)
    else none
  | _ => none

def mergeNone (path : Text) (answers : List (Option Answer)) (clusters : ℕ) : Merged :=
  let failed := (answers.filterMap id).filter fun a => a.json.isSome && 400 ≤ a.status
  match failed with
  | [] =>
    if clusters = 0 ∧ (path.splitOn '/').length % 2 = 1 then
      sync (if path = "/1.0/operations".toList then .obj [] else .arr [])
    else if clusters = 0 then failure 404 "Not found"
    else failure 503 "No cluster answered"
  | first :: _ =>
    if clusters = 0 ∧ (path.splitOn '/').length % 2 = 1 then
      sync (if path = "/1.0/operations".toList then .obj [] else .arr [])
    else
      let real := (failed.find? fun a => a.status ≠ 404).getD first
      ⟨real.status, .obj (real.json.getD [])⟩

def mergeOk (path : Text) (ok : List Answer) : Option Merged :=
  let metas := ok.map Answer.metadata
  if path = "/1.0/projects".toList then some (sync (.arr (flat metas)))
  else
    match projectPath path with
    | some (.state _) => (sumState metas).map sync
    | some (.project name) => do
      let same ← metas.mapM props
      let name ← decodeURIComponent name
      pure (sync (.obj (mergedProject name same)))
    | none =>
      if metas.all isArray then some (sync (.arr (flat metas)))
      else if isOperationLists metas then do
        let out ← (metas.flatMap fun m => entries (some m)).foldlM addOperations []
        pure (sync (.obj out))
      else some ⟨200, .obj ((ok.head?.bind Answer.json).getD [])⟩

def merge (path : Text) (answers : List (Option Answer)) (clusters : ℕ) (config : Option Obj) : Option Merged :=
  let ok := okAnswers answers
  if path = "/1.0".toList then do
    let servers ← (ok.map Answer.metadata).mapM props
    let server := if servers = [] then noServer else federatedServer servers
    pure (sync (.obj (OrdMap.set server "config".toList (.obj (config.getD [])))))
  else if path = "/1.0/cluster".toList then
    some (sync (.obj [("server_name".toList, .str []), ("enabled".toList, .bool true), ("member_config".toList, .arr [])]))
  else if ok = [] then some (mergeNone path answers clusters)
  else mergeOk path ok

/-! ### What a state is read for -/

/-- `resources[k]?.[field] ?? 0`. -/
def readField (field : String) (state : Json Text) (k : Text) : ℚ :=
  match ((entries ((entries (some state)).get "resources".toList)).get k).bind fun r =>
      (entries (some r)).get field.toList with
  | some (.num x) => x
  | _ => 0

/-- What `projectUsage` of `reconcile/projects.ts` reads of a resource. -/
def readUsage : Json Text → Text → ℚ := readField "Usage"

def readLimit : Json Text → Text → ℚ := readField "Limit"

end IncusCloud.Federation
