import IncusCloud.Gateway.Relay
import IncusCloud.Lib.Checked
import IncusCloud.Lib.Percent
import IncusCloud.Lib.Text

/-!
# Who may reach a cluster

`gateway/route.ts` and the way of a request through `gateway/handler.ts`: which cluster it is for,
whether it is admitted (`admit`), and what is relayed. What `admit` asks others is a parameter: the
clusters, who is calling, and whether they have access. The log of requests is left out.

What a cluster makes of the target it is sent is `resolved`.
-/

namespace IncusCloud.Gateway

open Lib

/-! ### Routes -/

/-- `CLUSTER_NAME`: `^[a-z][a-z0-9-]{0,61}[a-z0-9]$`. -/
def clusterName (name : List Char) : Bool :=
  2 ≤ name.length && name.length ≤ 63 && name.head?.any Char.isLower &&
    name.getLast?.any (fun ch => ch.isLower || ch.isDigit) &&
    name.all fun ch => ch.isLower || ch.isDigit || ch = '-'

inductive RouteMode
  | host | path
  deriving DecidableEq

structure Route where
  name : String
  /-- Path and query to send to the cluster (or, for /ui, to serve). -/
  path : String
  mode : RouteMode
  deriving DecidableEq

/-- What `.` does not match. -/
def isLineEnd (ch : Char) : Bool := ch = '\n' || ch = '\r' || ch = '\u2028' || ch = '\u2029'

/-- `(?:[/?].*)?$`. -/
def isBelow : List Char → Bool
  | [] => true
  | ch :: s => (ch = '/' || ch = '?') && s.all fun ch => !isLineEnd ch

/-- `\/(?:1\.0|os\/1\.0|ui|documentation)(?:[/?].*)?$`. -/
def isClusterPath (path : List Char) : Bool :=
  ["/1.0", "/os/1.0", "/ui", "/documentation"].any fun own =>
    own.toList.isPrefixOf path && isBelow (path.drop own.length)

/-- `PATH_ROUTE`: the name, and the path on the cluster. -/
def pathRoute (url : List Char) : Option (List Char × List Char) :=
  if "/clusters/".toList.isPrefixOf url then
    let rest := url.drop "/clusters/".length
    let name := rest.takeWhile fun ch => ch ≠ '/' && ch ≠ '?' && ch ≠ '#'
    let path := rest.drop name.length
    if name ≠ [] ∧ isClusterPath path = true then some (name, path) else none
  else none

/-- `.replace(/:\d+$/, "")`. -/
def dropPort (host : List Char) : List Char :=
  let digits := (host.reverse.takeWhile Char.isDigit).reverse
  let before := host.take (host.length - digits.length)
  if digits ≠ [] ∧ before.getLast? = some ':' then before.dropLast else host

/-- `routeRequest`: which cluster a request is for, from its host or its path. -/
def routeRequest (host url : Option String) (clusterDomain : String) : Option Route :=
  let host := dropPort (lower (host.getD "")).toList
  let url := url.getD "/"
  let suffix := '.' :: (lower clusterDomain).toList
  if suffix.isSuffixOf host then
    let name := host.take (host.length - suffix.length)
    if clusterName name then some ⟨String.ofList name, url, .host⟩ else none
  else
    match pathRoute url.toList with
    | some (name, path) =>
      if clusterName name then some ⟨String.ofList name, String.ofList path, .path⟩ else none
    | none => none

/-! ### Admission -/

structure Incoming where
  method : Option String
  host : Option String
  url : Option String
  authorization : Option String
  origin : Option String
  upgrade : Bool

structure Principal where
  id : String
  token : String
  deriving DecidableEq

inductive ClusterStatus
  | enrolled | disabled
  deriving DecidableEq

structure Cluster where
  id : String
  name : String
  url : String
  status : ClusterStatus
  deriving DecidableEq

/-- What a question ends in when it is not answered: an `ApiError`, or another. -/
inductive Thrown
  | api (status : ℕ) (message : String)
  | other

structure GatewayDeps where
  publicOrigin : String
  clusterDomain : String
  clusters : String → Except Thrown (Option Cluster)
  resolvePrincipal : Incoming → Route → Except Thrown (Option Principal)
  check : Principal → Cluster → Except Thrown Bool
  ui : Bool

/-- After the start of a segment: `\.{1,2}(?:[/?]|$)`. -/
def startsWithDots : List Char → Bool
  | '.' :: '.' :: s => s.head?.all fun ch => ch = '/' || ch = '?'
  | '.' :: s => s.head?.all fun ch => ch = '/' || ch = '?'
  | _ => false

/-- `/(?:^|\/)\.{1,2}(?:[/?]|$)/`; `start`: at the beginning, or after a slash. -/
def hasDots : Bool → List Char → Bool
  | _, [] => false
  | start, ch :: s => start && startsWithDots (ch :: s) || hasDots (ch = '/') s

/-- `ambiguous`: dot segments or encoded separators. -/
def ambiguous (path : String) : Bool :=
  let path := (cut '?' path.toList).1
  hasDots true path ||
    ["%2e", "%2f", "%5c"].any (fun code => code.toList <:+: path.map Char.toLower) || path.contains '\\'

def isAnonymousAllowed (method path : String) : Bool :=
  method = "GET" && (path = "/1.0" || "/1.0?".toList.isPrefixOf path.toList) ||
    (method = "GET" || method = "HEAD") && isDocumentation path && !ambiguous path

/-- `/^\/ui(?:[/?]|$)/`. -/
def isUiPath (path : String) : Bool :=
  "/ui".toList.isPrefixOf path.toList && (path.toList.drop "/ui".length).head?.all fun ch => ch = '/' || ch = '?'

structure Refusal where
  status : ℕ
  message : String
  deriving DecidableEq

structure Admitted where
  route : Route
  cluster : Cluster
  principal : Option Principal
  isUi : Bool
  deriving DecidableEq

/-- What is written for an error that `admit` catches; another is only logged. -/
def refusal : Thrown → Refusal
  | .api status message => ⟨status, message⟩
  | .other => ⟨500, "Internal error"⟩

def uncaught {α : Type} (x : Except Thrown α) : Except Refusal α := x.mapError fun _ => refusal .other

/-- `admit`: everything before relaying. -/
def admits (g : GatewayDeps) (req : Incoming) (route : Route) : Except Refusal Admitted := do
  let row ← uncaught (g.clusters route.name)
  let known ← found row ⟨404, "Unknown cluster \"" ++ route.name ++ "\""⟩
  let cluster := known.val
  need (cluster.status ≠ .disabled) ⟨503, "Cluster \"" ++ cluster.name ++ "\" is disabled"⟩
  let principal ← (g.resolvePrincipal req route).mapError refusal
  let isUi := route.mode = .path && isUiPath route.path
  -- The CLI sends an empty bearer until it has logged in: that asks for a login.
  let askedToAuthenticate := req.authorization.isSome
  let allowed := isAnonymousAllowed (req.method.getD "") route.path
  need (¬ (principal = none ∧ isUi = false ∧ (askedToAuthenticate = true ∨ allowed = false)))
    ⟨401, "Sign in to IncusCloud first (send an access token)"⟩
  let viaSession := principal.isSome && req.authorization.getD "" = ""
  need (¬ (req.upgrade = true ∧ viaSession = true ∧ req.origin.getD "" ≠ "" ∧ req.origin ≠ some g.publicOrigin))
    ⟨403, "Cross-origin requests cannot use the session cookie"⟩
  let access ← principal.elim (pure true) fun p => uncaught (g.check p cluster)
  need (access = true) ⟨403, "You have no access to cluster \"" ++ cluster.name ++ "\""⟩
  return ⟨route, cluster, principal, isUi⟩

/-! ### Relaying -/

structure RelayTarget where
  url : String
  path : String
  method : String
  principal : Option Principal
  upgrade : Bool
  deriving DecidableEq

namespace RelayTarget

def token (t : RelayTarget) : Option String := t.principal.map (·.token)

end RelayTarget

inductive Served
  | refused (r : Refusal)
  | ui (a : Admitted)
  | relayed (t : RelayTarget)
  deriving DecidableEq

/-- `request` and `upgrade`; none: it is not for the gateway (`match`). -/
def serve (g : GatewayDeps) (req : Incoming) : Option Served :=
  (routeRequest req.host req.url g.clusterDomain).map fun route =>
    match admits g req route with
    | .error r => .refused r
    | .ok a =>
      if a.isUi then if g.ui && !req.upgrade then .ui a else .refused ⟨404, "Not found"⟩
      else .relayed ⟨a.cluster.url, a.route.path, req.method.getD "", a.principal, req.upgrade⟩

/-! ### What a cluster makes of a target -/

def decodeOnce : List Char → List Char
  | [] => []
  | '%' :: a :: b :: s =>
    match hexVal a, hexVal b with
    | some hi, some lo => Char.ofNat (16 * hi + lo) :: decodeOnce s
    | _, _ => '%' :: decodeOnce (a :: b :: s)
  | ch :: s => ch :: decodeOnce s

def slashed (ch : Char) : Char := if ch = '\\' then '/' else ch

/-- `.` or `..`. -/
def isDots (segment : List Char) : Bool := segment = ['.'] || segment = ['.', '.']

def removeDots (segments : List (List Char)) : List (List Char) :=
  let out := segments.foldl
    (fun out s => if s = ['.'] then out else if s = ['.', '.'] then out.dropLast else out ++ [s]) []
  if segments.getLast?.any isDots then out ++ [[]] else out

/-- The segments of a target's path on the cluster, without its query. A target has no fragment:
`#` is a character like another. -/
def resolved (target : String) : List (List Char) :=
  removeDots (((decodeOnce (cut '?' target.toList).1).map slashed).splitOn '/').tail

end IncusCloud.Gateway
