import IncusCloud.Lib.OrdMap

/-!
# Objects with undefined values

A JavaScript object whose values may be `undefined`: a key that holds `undefined` is there, and
reads as one that is not. `Same` compares such an object with a plain one, where only what is
defined counts.
-/

open List

namespace IncusCloud.Lib

open OrdMap (get_cons isSome_get)

variable {K V : Type*} [DecidableEq K]

/-- An object as its entries; `none` is `undefined`. -/
abbrev Fields (K V : Type*) := OrdMap K (Option V)

namespace Fields

def read (f : Fields K V) (k : K) : Option V := (OrdMap.get f k).join

def ofMap (m : OrdMap K V) : Fields K V := m.map fun e => (e.1, some e.2)

def spread (a b : Fields K V) : Fields K V := b.foldl (fun m e => m.set e.1 e.2) a

/-- The object with these keys, read from another. -/
def pick (m : OrdMap K V) (ks : List K) : Fields K V := ks.map fun k => (k, m.get k)

def Same (f : Fields K V) (m : OrdMap K V) : Prop := ∀ k, f.read k = m.get k

theorem get_ofMap (m : OrdMap K V) (k : K) : (ofMap m).get k = (m.get k).map some := by
  induction m with
  | nil => rfl
  | cons e m ih =>
    have hcons : ofMap (e :: m) = (e.1, some e.2) :: ofMap m := rfl
    rw [hcons, get_cons, get_cons, ih]
    split_ifs <;> rfl

theorem read_ofMap (m : OrdMap K V) (k : K) : (ofMap m).read k = m.get k := by
  unfold read
  rw [get_ofMap]
  cases m.get k <;> rfl

theorem get_pick (m : OrdMap K V) (ks : List K) (k : K) :
    (pick m ks).get k = if k ∈ ks then some (m.get k) else none := by
  induction ks with
  | nil => rfl
  | cons a ks ih =>
    have hcons : pick m (a :: ks) = (a, m.get a) :: pick m ks := rfl
    rw [hcons, get_cons, ih]
    by_cases ha : a = k
    · subst ha
      simp
    · simp [ha, Ne.symm ha]

theorem read_pick (m : OrdMap K V) (ks : List K) (k : K) :
    (pick m ks).read k = if k ∈ ks then m.get k else none := by
  unfold read
  rw [get_pick]
  split_ifs <;> rfl

theorem same_pick (m : OrdMap K V) (ks : List K) : Same (pick m ks) m ↔ ∀ k, k ∉ ks → m.get k = none := by
  constructor
  · intro h k hk
    have hread := h k
    rw [read_pick, if_neg hk] at hread
    exact hread.symm
  · intro h k
    rw [read_pick]
    split_ifs with hk
    · rfl
    · exact (h k hk).symm

theorem read_of_mem {f : Fields K V} (hf : (f.map (·.1)).Nodup) {e : K × Option V} (he : e ∈ f) :
    f.read e.1 = e.2 := by
  have hget : OrdMap.get f e.1 = some e.2 := OrdMap.get_of_mem hf he
  unfold read
  rw [hget]
  rfl

theorem read_of_not_mem {f : Fields K V} {k : K} (hk : k ∉ f.map (·.1)) : f.read k = none := by
  have hget : OrdMap.get f k = none := by
    by_contra hsome
    exact hk ((isSome_get f k).mp (Option.isSome_iff_ne_none.mpr hsome))
  unfold read
  rw [hget]
  rfl

theorem read_map {W : Type*} (m : OrdMap K W) (g : W → Option V) (k : K) :
    Fields.read (m.map fun e => (e.1, g e.2)) k = (m.get k).bind g := by
  unfold read
  induction m with
  | nil => rfl
  | cons e m ih =>
    rw [map_cons, get_cons, get_cons]
    split_ifs
    · rfl
    · exact ih

theorem read_erase (f : Fields K V) (k k' : K) :
    Fields.read (OrdMap.erase f k) k' = if k' = k then none else f.read k' := by
  unfold read
  rw [OrdMap.get_erase]
  split_ifs <;> rfl

theorem read_erase_of_none {f : Fields K V} {k : K} (h : f.read k = none) (k' : K) :
    Fields.read (OrdMap.erase f k) k' = f.read k' := by
  rw [read_erase]
  split_ifs with hk
  · rw [hk, h]
  · rfl

theorem get_spread (a : Fields K V) {b : Fields K V} (hb : (b.map (·.1)).Nodup) (k : K) :
    (spread a b).get k = (OrdMap.get b k).or (OrdMap.get a k) := by
  induction b generalizing a with
  | nil => rfl
  | cons e b ih =>
    rw [map_cons, nodup_cons] at hb
    have hcons : spread a (e :: b) = spread (OrdMap.set a e.1 e.2) b := rfl
    rw [hcons, ih _ hb.2, OrdMap.get_set, get_cons]
    by_cases he : e.1 = k
    · have hnot : OrdMap.get b k = none := by
        by_contra hsome
        have hmem := (isSome_get b k).mp (Option.isSome_iff_ne_none.mpr hsome)
        exact hb.1 (he ▸ hmem)
      rw [if_pos he.symm, if_pos he, hnot]
      rfl
    · rw [if_neg (Ne.symm he), if_neg he]

theorem read_spread (a : Fields K V) {b : Fields K V} (hb : (b.map (·.1)).Nodup) (k : K) :
    (spread a b).read k = if k ∈ b.map (·.1) then b.read k else a.read k := by
  unfold read
  rw [get_spread a hb]
  split_ifs with hk
  · obtain ⟨v, hv⟩ := Option.isSome_iff_exists.mp ((isSome_get b k).mpr hk)
    rw [hv]
    rfl
  · have hnone : OrdMap.get b k = none := by
      by_contra hsome
      exact hk ((isSome_get b k).mp (Option.isSome_iff_ne_none.mpr hsome))
    rw [hnone]
    rfl

/-- `{...f, ...g, …}`, of a list. -/
def spreads (fs : List (Fields K V)) : Fields K V := fs.foldl spread []

def Agrees (g : K → Option V) (f : Fields K V) : Prop := ∀ e ∈ f, e.2 = g e.1

theorem spreads_eq_ofList (fs : List (Fields K V)) : spreads fs = OrdMap.ofList fs.flatten := by
  unfold spreads OrdMap.ofList
  rw [foldl_flatten]
  rfl

theorem read_spreads {g : K → Option V} {fs : List (Fields K V)} (h : ∀ f ∈ fs, Agrees g f)
    (k : K) : (spreads fs).read k = if k ∈ fs.flatten.map (·.1) then g k else none := by
  have hgraph : (fs.flatten.map (·.1)).map (fun k => (k, g k)) = fs.flatten := by
    rw [map_map]
    conv_rhs => rw [← map_id fs.flatten]
    apply map_congr_left
    intro e he
    obtain ⟨f, hf, he⟩ := mem_flatten.mp he
    have hval := h f hf e he
    simp [← hval]
  unfold read
  rw [spreads_eq_ofList, ← hgraph, OrdMap.get_ofList_map, hgraph]
  split_ifs <;> rfl

theorem mem_spread {a b : Fields K V} {e : K × Option V} (h : e ∈ spread a b) :
    e ∈ b ∨ e ∈ a ∧ e.1 ∉ b.map (·.1) := by
  induction b generalizing a with
  | nil => exact .inr ⟨h, not_mem_nil⟩
  | cons x b ih =>
    rcases ih h with h | ⟨h, hnot⟩
    · exact .inl (mem_cons_of_mem _ h)
    · rcases OrdMap.mem_of_mem_set h with rfl | ⟨h, hne⟩
      · exact Or.inl mem_cons_self
      · apply Or.inr
        refine ⟨h, ?_⟩
        rw [map_cons, mem_cons]
        rintro (hk | hk)
        · exact hne hk
        · exact hnot hk

end Fields

/-!
### Objects used as records

What `key in record` and `record[key] = v` do to a plain JavaScript object: every object has the
names of `Object.prototype`, and an assignment to `__proto__` makes no entry.
-/

variable {V : Type*}

def objectPrototype : List String :=
  ["constructor", "__proto__", "hasOwnProperty", "isPrototypeOf", "propertyIsEnumerable",
    "toLocaleString", "toString", "valueOf", "__defineGetter__", "__defineSetter__",
    "__lookupGetter__", "__lookupSetter__"]

/-- `key in record`, for a record with these entries. -/
def isIn (key : String) (m : OrdMap String V) : Bool :=
  m.any (fun e => e.1 = key) || objectPrototype.contains key

/-- `record[key] = v`: `__proto__` is the object's prototype, not an entry. -/
def put (m : OrdMap String V) (key : String) (v : V) : OrdMap String V :=
  if key = "__proto__" then m else m.set key v

end IncusCloud.Lib
