import IncusCloud.Lib.OrdMap
import IncusCloud.Lib.Text

/-!
# JSON documents and patches

A JSON value, the place a JSON pointer names in it, and a JSON patch: its operations are applied one
after the other, and the document stays as it was when one of them cannot be.

* `getAt_modifyAt`: what stands at a place that was modified.
* `getAt_modifyAt_ne`: what stands at a place under another member of an object.
* `patch_add`, `patch_replace`: what an operation on a member does, and what it leaves alone.
-/

namespace IncusCloud.Lib

open Option
open OrdMap (get set get_set)

variable {ps : List String} {path : String}

inductive Json
  | null
  | bool (b : Bool)
  | num (n : ℤ)
  | str (s : String)
  | arr (xs : List Json)
  | obj (o : List (String × Json))

namespace Json

def index (t : String) : Option ℕ :=
  if t.toList ≠ [] ∧ t.toList.all Char.isDigit ∧ (t.toList.head? = some '0' → t.toList = ['0']) then
    some (decimal t.toList)
  else none

def child (t : String) : Json → Option Json
  | obj o => get o t
  | arr xs => (index t).bind fun i => xs[i]?
  | _ => none

/-- The value with that member or element replaced. -/
def withChild (t : String) (v : Json) : Json → Json
  | obj o => obj (set o t v)
  | arr xs => arr ((index t).elim xs fun i => xs.set i v)
  | j => j

def getAt : List String → Json → Option Json
  | [], j => some j
  | t :: ts, j => (child t j).bind (getAt ts)

/-- The document with the value at a place changed; the place has to be there. -/
def modifyAt (f : Json → Option Json) : List String → Json → Option Json
  | [], j => f j
  | t :: ts, j => (child t j).bind fun v => (modifyAt f ts v).map fun v' => withChild t v' j

/-- `add` to a value: a member is set, an element is inserted. -/
def addChild (t : String) (v : Json) : Json → Option Json
  | obj o => some (obj (set o t v))
  | arr xs =>
    if t = "-" then some (arr (xs ++ [v]))
    else (index t).bind fun i => if i ≤ xs.length then some (arr (xs.insertIdx i v)) else none
  | _ => none

/-- `replace` in a value: what is replaced has to be there. -/
def replaceChild (t : String) (v : Json) (j : Json) : Option Json :=
  (child t j).map fun _ => withChild t v j

def asString : Json → Option String
  | str s => some s
  | _ => none

def asArray : Json → Option (List Json)
  | arr xs => some xs
  | _ => none

/-! ### Patches -/

inductive PatchOp
  | add (path : String) (value : Json)
  | replace (path : String) (value : Json)
  | test (path : String) (value : String)

/-- The tokens of a pointer; none here has an escaped character. -/
def tokens (path : String) : List String := (split '/' path).tail

def PatchOp.apply (j : Json) : PatchOp → Option Json
  | add path v =>
    match (tokens path).getLast? with
    | some t => modifyAt (addChild t v) (tokens path).dropLast j
    | none => some v
  | replace path v =>
    match (tokens path).getLast? with
    | some t => modifyAt (replaceChild t v) (tokens path).dropLast j
    | none => some v
  | test path v => if (getAt (tokens path) j).bind asString = some v then some j else none

def patch (ops : List PatchOp) (j : Json) : Option Json := ops.foldlM PatchOp.apply j

/-! ### What a patch does -/

variable {f : Json → Option Json} {t t' : String} {ts : List String} {v j j' : Json}

theorem child_withChild (h : (child t j).isSome) : child t (withChild t v j) = some v := by
  cases j with
  | obj o => simp [child, withChild, get_set]
  | arr xs =>
    simp only [child] at h ⊢
    cases hi : index t with
    | none => simp [hi] at h
    | some i =>
      have hlt : i < xs.length := by simpa [hi] using h
      simp [withChild, hi, hlt]
  | null => simp [child] at h
  | bool b => simp [child] at h
  | num n => simp [child] at h
  | str s => simp [child] at h

theorem child_withChild_ne (ht : index t = none) (hne : t' ≠ t) :
    child t' (withChild t v j) = child t' j := by
  cases j with
  | obj o => simp [child, withChild, get_set, hne]
  | arr xs => simp [child, withChild, ht]
  | _ => rfl

theorem child_addChild (ht : index t = none) (hdash : t ≠ "-") (h : addChild t v j = some j') :
    child t j' = some v ∧ ∀ u, u ≠ t → child u j' = child u j := by
  cases j with
  | obj o =>
    obtain rfl := some.inj h
    refine ⟨?_, fun u hu => ?_⟩
    · simp [child, get_set]
    · simp [child, get_set, hu]
  | arr xs => simp [addChild, ht, hdash] at h
  | _ => cases h

theorem child_replaceChild (ht : index t = none) (h : replaceChild t v j = some j') :
    child t j' = some v ∧ ∀ u, u ≠ t → child u j' = child u j := by
  obtain ⟨w, hw, rfl⟩ := map_eq_some_iff.mp h
  refine ⟨child_withChild ?_, fun u hu => child_withChild_ne ht hu⟩
  rw [hw]
  rfl

theorem getAt_append (ps qs : List String) (j : Json) :
    getAt (ps ++ qs) j = (getAt ps j).bind (getAt qs) := by
  induction ps generalizing j with
  | nil => rfl
  | cons p ps ih =>
    simp only [List.cons_append, getAt, Option.bind_assoc]
    exact congrArg _ (funext ih)

theorem getAt_modifyAt (h : modifyAt f ps j = some j') :
    ∃ v v', getAt ps j = some v ∧ f v = some v' ∧ getAt ps j' = some v' := by
  induction ps generalizing j j' with
  | nil => exact ⟨j, j', rfl, h, rfl⟩
  | cons p ps ih =>
    obtain ⟨v, hv, h⟩ := bind_eq_some_iff.mp h
    obtain ⟨v', hv', rfl⟩ := map_eq_some_iff.mp h
    obtain ⟨w, w', hget, hf, hget'⟩ := ih hv'
    refine ⟨w, w', ?_, hf, ?_⟩
    · rw [getAt, hv]
      exact hget
    · rw [getAt, child_withChild (by rw [hv]; rfl)]
      exact hget'

theorem getAt_modifyAt_ne {cs qs : List String} (ht : index t = none) (hne : t' ≠ t)
    (h : modifyAt f (cs ++ t :: ps) j = some j') :
    getAt (cs ++ t' :: qs) j' = getAt (cs ++ t' :: qs) j := by
  induction cs generalizing j j' with
  | nil =>
    obtain ⟨v, -, h⟩ := bind_eq_some_iff.mp h
    obtain ⟨v', -, rfl⟩ := map_eq_some_iff.mp h
    rw [List.nil_append, getAt, getAt, child_withChild_ne ht hne]
  | cons c cs ih =>
    obtain ⟨v, hv, h⟩ := bind_eq_some_iff.mp h
    obtain ⟨v', hv', rfl⟩ := map_eq_some_iff.mp h
    have hsome : (child c j).isSome := by
      rw [hv]
      rfl
    rw [List.cons_append, getAt, getAt, child_withChild hsome, hv]
    exact ih hv'

theorem modifyAt_append (ps qs : List String) (j : Json) :
    modifyAt f (ps ++ qs) j = modifyAt (modifyAt f qs) ps j := by
  induction ps generalizing j with
  | nil => rfl
  | cons p ps ih =>
    rw [List.cons_append, modifyAt, modifyAt]
    exact congrArg _ (funext fun v => by rw [ih])

/-- The member `t` of what `ps` leads to is `v` now; its other members, and what lies beside it on
the way, are as before. -/
structure SetsAt (ps : List String) (t : String) (v j j' : Json) : Prop where
  set : getAt (ps ++ [t]) j' = some v
  others : ∀ u qs, u ≠ t → getAt (ps ++ u :: qs) j' = getAt (ps ++ u :: qs) j
  beside : ∀ cs c rest, ps = cs ++ c :: rest → index c = none → ∀ u qs, u ≠ c →
    getAt (cs ++ u :: qs) j' = getAt (cs ++ u :: qs) j

theorem SetsAt.of_modifyAt
    (hf : ∀ v₀ v₁, f v₀ = some v₁ → child t v₁ = some v ∧ ∀ u, u ≠ t → child u v₁ = child u v₀)
    (h : modifyAt f ps j = some j') : SetsAt ps t v j j' := by
  obtain ⟨v₀, v₁, hget, hmade, hget'⟩ := getAt_modifyAt h
  refine ⟨?_, fun u qs hu => ?_, ?_⟩
  · rw [getAt_append, hget', bind_some, getAt, (hf _ _ hmade).1]
    rfl
  · rw [getAt_append, getAt_append, hget, hget', bind_some, bind_some, getAt, getAt,
      (hf _ _ hmade).2 u hu]
  · rintro cs c rest rfl hc u qs hu
    exact getAt_modifyAt_ne hc hu h

theorem patch_add (hpath : tokens path = ps ++ [t])
    (ht : index t = none) (hdash : t ≠ "-") (h : (PatchOp.add path v).apply j = some j') :
    SetsAt ps t v j j' := by
  simp only [PatchOp.apply, hpath, List.getLast?_concat, List.dropLast_concat] at h
  exact .of_modifyAt (fun _ _ hmade => child_addChild ht hdash hmade) h

theorem patch_replace (hpath : tokens path = ps ++ [t])
    (ht : index t = none) (h : (PatchOp.replace path v).apply j = some j') :
    SetsAt ps t v j j' := by
  simp only [PatchOp.apply, hpath, List.getLast?_concat, List.dropLast_concat] at h
  exact .of_modifyAt (fun _ _ hmade => child_replaceChild ht hmade) h

theorem patch_test {s : String} (h : (PatchOp.test path s).apply j = some j') :
    j' = j ∧ (getAt (tokens path) j).bind asString = some s := by
  simp only [PatchOp.apply] at h
  split_ifs at h with htest
  exact ⟨(some.inj h).symm, htest⟩

theorem patch_cons {op : PatchOp} {ops : List PatchOp} :
    patch (op :: ops) j = (op.apply j).bind (patch ops) := rfl

theorem patch_append {ops ops' : List PatchOp} (h : patch (ops ++ ops') j = some j') :
    ∃ k, patch ops j = some k ∧ patch ops' k = some j' := by
  unfold patch at h
  rw [List.foldlM_append] at h
  exact bind_eq_some_iff.mp h

end Json

end IncusCloud.Lib
