import IncusCloud.Lib.Grouping
import IncusCloud.Lib.Text

/-!
# The activity of a cluster

`mergeActivity` of `packages/k8s/src/lib/activity.ts`: the entries of several sources in one
timeline, where a line that repeats is folded into its first occurrence. A time is of any linear
order: `localeCompare` is the order of the ISO times of one format.
-/

namespace IncusCloud.Kubernetes

open Lib

inductive ActivityLevel
  | info
  | warning
  | error
deriving DecidableEq

def ActivityLevel.name : ActivityLevel → String
  | .info => "info"
  | .warning => "warning"
  | .error => "error"

structure ActivityEntry (τ : Type*) where
  time : τ
  lastTime : Option τ
  level : ActivityLevel
  source : String
  object : Option String
  message : String
  count : ℕ
deriving DecidableEq

variable {τ : Type*}

/-- `[entry.source, entry.object ?? "", entry.level, entry.message].join("\0")`. -/
def ActivityEntry.lineKey (entry : ActivityEntry τ) : String :=
  join (Char.ofNat 0) [entry.source, entry.object.getD "", entry.level.name, entry.message]

/-- The timeline so far, and where in it the first occurrence of a line is. -/
structure Merged (τ : Type*) where
  out : List (ActivityEntry τ)
  seen : OrdMap String ℕ

/-- `first.count += entry.count; first.lastTime = entry.time`. -/
def ActivityEntry.fold (first entry : ActivityEntry τ) : ActivityEntry τ :=
  { first with count := first.count + entry.count, lastTime := some entry.time }

def Merged.add (st : Merged τ) (entry : ActivityEntry τ) : Merged τ :=
  if entry.source = "event" then { st with out := st.out ++ [entry] }
  else
    match st.seen.get entry.lineKey with
    | some i => { st with out := st.out.modify i fun first => first.fold entry }
    | none => ⟨st.out ++ [entry], st.seen.set entry.lineKey st.out.length⟩

/-- `out.slice(-limit)`. -/
def sliceLast {α : Type*} (limit : ℕ) (out : List α) : List α :=
  if limit = 0 then out else out.drop (out.length - limit)

variable [LinearOrder τ]

def inOrder (sets : List (List (ActivityEntry τ))) : List (ActivityEntry τ) :=
  sets.flatten.mergeSort fun a b => a.time ≤ b.time

def mergeActivity (sets : List (List (ActivityEntry τ))) (limit : ℕ) : List (ActivityEntry τ) :=
  sliceLast limit ((inOrder sets).foldl Merged.add ⟨[], []⟩).out

end IncusCloud.Kubernetes
