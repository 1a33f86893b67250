import IncusCloud.Lib.Fields

/-!
# What a cluster's answer becomes

The headers of `gateway/relay.ts` and of `forward` of `federation/upstream.ts`: how a cluster's
answer is relayed from the platform's origin, for plain requests (`relayRequest`), those of the
facade whose JSON is rewritten (`forward`), and upgrades (`relayUpgrade`), accepted or refused.
`incomingHeaders` is `IncomingMessage.headers` of Node.
-/

namespace IncusCloud.Gateway

open Lib

/-- The characters of a header's name; an answer with others is not parsed. -/
def isTokenChar (ch : Char) : Bool := ch.isAlphanum || "!#$%&'*+-.^_`|~".toList.contains ch

structure RawHeader where
  name : String
  value : String
  token : name.toList.all isTokenChar = true

structure Answer where
  status : ℕ
  rawHeaders : List RawHeader

def lower (s : String) : String := String.ofList (s.toList.map Char.toLower)

/-! ### Headers by name -/

inductive HeaderValue
  | text (s : String)
  | list (l : List String)

/-- `IncomingHttpHeaders`. -/
abbrev Headers := OrdMap String HeaderValue

def single : List String :=
  ["age", "authorization", "content-length", "content-type", "etag", "expires", "from", "host", "if-modified-since",
    "if-unmodified-since", "last-modified", "location", "max-forwards", "proxy-authorization", "referer",
    "retry-after", "server", "user-agent"]

/-- One more header: cookies are listed, others are joined or dropped where the name is there. -/
def addHeaderLine (m : Headers) (h : RawHeader) : Headers :=
  let field := lower h.name
  if field = "set-cookie" then
    match m.get field with
    | some (.list l) => m.set field (.list (l ++ [h.value]))
    | _ => m.set field (.list [h.value])
  else if single.contains field then
    if (m.get field).isSome then m else put m field (.text h.value)
  else
    match m.get field with
    | some (.text s) => put m field (.text (s ++ (if field = "cookie" then "; " else ", ") ++ h.value))
    | _ => put m field (.text h.value)

/-- `headers` of an answer. -/
def incomingHeaders (rawHeaders : List RawHeader) : Headers := rawHeaders.foldl addHeaderLine []

/-! ### Plain answers -/

def hop : List String :=
  ["connection", "keep-alive", "transfer-encoding", "upgrade", "te", "trailer",
    "proxy-authorization", "proxy-authenticate", "proxy-connection"]

/-- `/^\/documentation(?:[/?]|$)/`: Incus's documentation. -/
def isDocumentation (path : String) : Bool :=
  "/documentation".toList.isPrefixOf path.toList &&
    match path.toList.drop "/documentation".length with
    | [] => true
    | ch :: _ => ch = '/' || ch = '?'

/-- One header of the cluster's, unless it is about the connection or a cookie. -/
def keepHeader (h : Headers) (e : String × HeaderValue) : Headers :=
  if hop.contains e.1 || e.1 = "set-cookie" then h else put h e.1 e.2

def downstreamHeaders (headers : Headers) (path : String) : Headers :=
  let kept := headers.foldl keepHeader []
  let h := put kept "x-content-type-options" (.text "nosniff")
  if isDocumentation path then h else put h "content-security-policy" (.text "sandbox")

/-- The lines that `writeHead` writes. -/
def headerLines (h : Headers) : List (String × String) :=
  h.flatMap fun e =>
    match e.2 with
    | .text v => [(e.1, v)]
    | .list l => l.map fun v => (e.1, v)

def isWordChar (ch : Char) : Bool := ch.isAlphanum || ch = '_'

/-- Whether `word` stands in a text, with no word character around it; `prev` says whether one
stands before. -/
def wordIn (word : List Char) : Bool → List Char → Bool
  | prev, [] => !prev && word.isEmpty
  | prev, ch :: s =>
    (!prev && word.isPrefixOf (ch :: s) && !((((ch :: s).drop word.length).head?).any isWordChar)) ||
      wordIn word (isWordChar ch) s

/-- `isJson`: `/\bjson\b/i` on the content type. -/
def isJson (headers : Headers) : Bool :=
  match headers.get "content-type" with
  | some (.text s) => wordIn "json".toList false (s.toList.map Char.toLower)
  | _ => false

/-- What `relayRequest` writes. -/
def relayRequest (a : Answer) (path : String) : List (String × String) :=
  headerLines (downstreamHeaders (incomingHeaders a.rawHeaders) path)

/-- What `forward` writes; `length` is that of the rewritten body. -/
def forward (a : Answer) (path : String) (length : ℕ) : List (String × String) :=
  let h := downstreamHeaders (incomingHeaders a.rawHeaders) path
  if isJson (incomingHeaders a.rawHeaders) then headerLines (put h "content-length" (.text (toString length)))
  else headerLines h

/-! ### Upgrades -/

/-- What `relayUpgrade` writes when the cluster upgrades. -/
def upgraded (a : Answer) : List (String × String) := a.rawHeaders.map fun h => (h.name, h.value)

/-- `/^(transfer-encoding|connection|set-cookie)$/i`. -/
def dropped (name : String) : Bool := ["transfer-encoding", "connection", "set-cookie"].contains (lower name)

/-- What `relayUpgrade` writes when the cluster refuses. -/
def refused (a : Answer) : List (String × String) :=
  (a.rawHeaders.filter fun h => !dropped h.name).map (fun h => (h.name, h.value)) ++ [("connection", "close")]

inductive Relay
  | plain (a : Answer)
  | rewritten (a : Answer) (length : ℕ)
  | accepted (a : Answer) (h : a.status = 101)
  | refused (a : Answer)

namespace Relay

def answer : Relay → Answer
  | plain a | rewritten a _ | accepted a _ | refused a => a

def headers (r : Relay) (path : String) : List (String × String) :=
  match r with
  | plain a => relayRequest a path
  | rewritten a length => forward a path length
  | accepted a _ => upgraded a
  | refused a => Gateway.refused a

end Relay

end IncusCloud.Gateway
