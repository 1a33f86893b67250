import IncusCloud.Lib.OrdMap
import IncusCloud.Lib.Window

/-!
# The sign-in throttle

`identity/throttle.ts`: failed sign-ins per key (email, client IP) in a sliding window, in whole
milliseconds. A call is given what the clock says each time it is read.
-/

namespace IncusCloud.Identity

open Lib

structure ThrottleOptions where
  limit : ℕ
  windowMs : ℤ
  maxKeys : ℕ
  limit_pos : 1 ≤ limit
  maxKeys_pos : 1 ≤ maxKeys

abbrev Hits := OrdMap String (List ℤ)

/-- A key, and what the clock says when its times are read and at the next reading. -/
structure KeyAt where
  key : String
  first : ℤ
  second : ℤ
  deriving DecidableEq

def timesOf (hits : Hits) (key : String) : List ℤ := (hits.get key).getD []

/-- `Math.ceil(ms / 1000)`. -/
def ceilSeconds (ms : ℤ) : ℤ := -(-ms / 1000)

section

variable (o : ThrottleOptions)

/-- `recent`: the times in the window, and the map without the others. -/
def recent (hits : Hits) (key : String) (now : ℤ) : List ℤ × Hits :=
  let cutoff := now - o.windowMs
  let kept := after cutoff (timesOf hits key)
  (kept, if kept = [] then hits.erase key else hits.set key kept)

/-- One key of `retryAfterS`. -/
def retryOne (s : ℤ × Hits) (k : KeyAt) : ℤ × Hits :=
  let r := recent o s.2 k.key k.first
  if o.limit ≤ r.1.length then
    (max s.1 (ceilSeconds ((latest o.limit r.1).getD 0 + o.windowMs - k.second)), r.2)
  else (s.1, r.2)

/-- Seconds until every key may try again; 0 when none is blocked. -/
def retryAfterS (hits : Hits) (keys : List KeyAt) : ℤ × Hits := keys.foldl (retryOne o) (0, hits)

/-- The map without the oldest key, where there is no room for another. -/
def makeRoom (hits : Hits) (key : String) : Hits :=
  if (hits.get key).isNone ∧ o.maxKeys ≤ hits.length then
    match hits with
    | [] => []
    | e :: _ => hits.erase e.1
  else hits

/-- One key of `fail`. -/
def failOne (hits : Hits) (k : KeyAt) : Hits :=
  let r := recent o (makeRoom o hits k.key) k.key k.first
  r.2.set k.key (r.1 ++ [k.second])

def fail (hits : Hits) (keys : List KeyAt) : Hits := keys.foldl (failOne o) hits

def clear (hits : Hits) (keys : List String) : Hits := keys.foldl OrdMap.erase hits

inductive ThrottleCall
  | retryAfterS (keys : List KeyAt)
  | fail (keys : List KeyAt)
  | clear (keys : List String)

def throttleStep (hits : Hits) : ThrottleCall → Hits
  | .retryAfterS keys => (retryAfterS o hits keys).2
  | .fail keys => fail o hits keys
  | .clear keys => clear hits keys

def throttleRun (calls : List ThrottleCall) : Hits := calls.foldl (throttleStep o) []

end

end IncusCloud.Identity
