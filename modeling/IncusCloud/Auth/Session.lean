import IncusCloud.Lib.Run
import IncusCloud.Lib.Slots

/-!
# Sessions and their tokens

`freshSession` of `auth/principal.ts`: any number of requests, on any number of replicas, that carry
the cookie of one session, interleaved statement by statement. A transaction's writes are seen when
it commits, and until then nobody else can delete the row it has written. A sign-out, or disabling
the user, also deletes the row. `resolvePrincipal` forwards the access token of the row it is
given.

`used` is what `tokens.refresh` was called with and `history` what the row has been, the latest
last.
-/

namespace IncusCloud.Auth

def sessionMaxAgeS : Int := 7 * 86400

def refreshBeforeMs : Int := 60000

/-- A row of `sessions`; times in milliseconds, the refresh token as it is when opened. -/
structure Session (Token : Type) where
  accessToken : Token
  refreshToken : Option Token
  idToken : Option Token
  expiresAt : Int
  createdAt : Int
  deriving DecidableEq

/-- What `tokens.refresh` returns. -/
structure TokenSet (Token : Type) where
  accessToken : Token
  refreshToken : Option Token
  idToken : Option Token
  expiresIn : Int
  deriving DecidableEq

variable {Token : Type}

namespace Session

def aged (row : Session Token) (now : Int) : Bool := sessionMaxAgeS * 1000 < now - row.createdAt

def fresh (row : Session Token) (now : Int) : Bool := refreshBeforeMs < row.expiresAt - now

def refreshed (row cur : Session Token) (set : TokenSet Token) (now : Int) : Session Token :=
  { row with
    accessToken := set.accessToken
    refreshToken := set.refreshToken <|> cur.refreshToken
    idToken := set.idToken <|> cur.idToken
    expiresAt := now + set.expiresIn * 1000 }

end Session

/-- Where a request is in `freshSession`. -/
inductive Phase (Token : Type)
  | started
  | aged
  | waiting
  | locked
  | current (cur : Session Token)
  | refreshing (cur : Session Token)
  | updating (cur : Session Token) (set : TokenSet Token)
  | updated (new : Session Token)
  | deleting
  | deleted
  | finishing (result : Option (Session Token))
  /-- It has returned, when the history had come to its entry `ended`. -/
  | returned (result : Option (Session Token)) (ended : ℕ)
  deriving DecidableEq

/-- The request's transaction has written, and not committed. -/
def Phase.hasWritten : Phase Token → Bool
  | updated _ | deleted => true
  | _ => false

structure SessionRequest (Token : Type) where
  phase : Phase Token
  began : ℕ

inductive AdvisoryLock
  | free
  | held (i : ℕ)
  /-- By a request of another session, whose id has the same hash. -/
  | foreign
  deriving DecidableEq

structure Sessions (Token : Type) where
  row : Option (Session Token)
  lock : AdvisoryLock
  requests : List (SessionRequest Token)
  used : List Token
  history : List (Option (Session Token))

inductive SessionAction (Token : Type)
  | arrive
  | select (i : ℕ) (now : Int)
  | deleteAged (i : ℕ)
  | acquireLock (i : ℕ)
  | selectCurrent (i : ℕ)
  | refresh (i : ℕ) (now : Int)
  | refreshed (i : ℕ) (set : TokenSet Token)
  | refreshFailed (i : ℕ)
  | update (i : ℕ) (now : Int)
  | delete (i : ℕ)
  | commit (i : ℕ)
  | signOut
  | foreignLock
  | foreignUnlock

namespace Sessions

variable (s : Sessions Token)

def rowLocked : Bool := s.requests.any fun r => r.phase.hasWritten

/-- The row becomes what a transaction or statement has made of it. -/
def setRow (row : Option (Session Token)) : Sessions Token :=
  { s with row := row, history := s.history ++ [row] }

def go (i : ℕ) (r : SessionRequest Token) (phase : Phase Token) : Sessions Token :=
  { s with requests := s.requests.set i { r with phase := phase } }

def goReturn (i : ℕ) (r : SessionRequest Token)
    (result : Option (Session Token)) : Sessions Token :=
  s.go i r (.returned result (s.history.length - 1))

def selected (i : ℕ) (r : SessionRequest Token) (now : Int) : Sessions Token :=
  match s.row with
  | none => s.goReturn i r none
  | some row =>
    if row.aged now then s.go i r .aged
    else if row.fresh now then s.goReturn i r (some row)
    else s.go i r .waiting

/-- Where the read under the lock leads, once there is a row. -/
def refreshStep (i : ℕ) (r : SessionRequest Token) (cur : Session Token)
    (now : Int) : Sessions Token :=
  if cur.fresh now then s.go i r (.finishing (some cur))
  else
    match cur.refreshToken with
    | none => s.go i r .deleting
    | some token => { s.go i r (.refreshing cur) with used := s.used ++ [token] }

def step : SessionAction Token → Option (Sessions Token)
  | .arrive => some { s with requests := s.requests ++ [⟨.started, s.history.length - 1⟩] }
  | .select i now =>
    match s.requests[i]? with
    | some ⟨.started, began⟩ => some (s.selected i ⟨.started, began⟩ now)
    | _ => none
  | .deleteAged i =>
    match s.requests[i]? with
    | some ⟨.aged, began⟩ =>
      if s.rowLocked then none else some ((s.setRow none).goReturn i ⟨.aged, began⟩ none)
    | _ => none
  | .acquireLock i =>
    match s.requests[i]?, s.lock with
    | some ⟨.waiting, began⟩, .free => some { s.go i ⟨.waiting, began⟩ .locked with lock := .held i }
    | _, _ => none
  | .selectCurrent i =>
    match s.requests[i]? with
    | some ⟨.locked, began⟩ =>
      match s.row with
      | none => some (s.go i ⟨.locked, began⟩ (.finishing none))
      | some cur => some (s.go i ⟨.locked, began⟩ (.current cur))
    | _ => none
  | .refresh i now =>
    match s.requests[i]? with
    | some ⟨.current cur, began⟩ => some (s.refreshStep i ⟨.current cur, began⟩ cur now)
    | _ => none
  | .refreshed i set =>
    match s.requests[i]? with
    | some ⟨.refreshing cur, began⟩ => some (s.go i ⟨.refreshing cur, began⟩ (.updating cur set))
    | _ => none
  | .refreshFailed i =>
    match s.requests[i]? with
    | some ⟨.refreshing cur, began⟩ => some (s.go i ⟨.refreshing cur, began⟩ .deleting)
    | _ => none
  | .update i now =>
    match s.requests[i]? with
    | some ⟨.updating cur set, began⟩ =>
      match s.row with
      | none => some (s.go i ⟨.updating cur set, began⟩ (.finishing none))
      | some row => some (s.go i ⟨.updating cur set, began⟩ (.updated (row.refreshed cur set now)))
    | _ => none
  | .delete i =>
    match s.requests[i]? with
    | some ⟨.deleting, began⟩ =>
      match s.row with
      | none => some (s.go i ⟨.deleting, began⟩ (.finishing none))
      | some _ => some (s.go i ⟨.deleting, began⟩ .deleted)
    | _ => none
  | .commit i =>
    match s.requests[i]? with
    | some ⟨.updated new, began⟩ =>
      some { (s.setRow (some new)).goReturn i ⟨.updated new, began⟩ (some new) with lock := .free }
    | some ⟨.deleted, began⟩ =>
      some { (s.setRow none).goReturn i ⟨.deleted, began⟩ none with lock := .free }
    | some ⟨.finishing result, began⟩ =>
      some { s.goReturn i ⟨.finishing result, began⟩ result with lock := .free }
    | _ => none
  | .signOut => if s.rowLocked then none else some (s.setRow none)
  | .foreignLock => if s.lock = .free then some { s with lock := .foreign } else none
  | .foreignUnlock => if s.lock = .foreign then some { s with lock := .free } else none

end Sessions

end IncusCloud.Auth
