import Mathlib.Data.List.Nodup

/-!
# Insertion-ordered maps

A `Map` of the source as the list of its entries: setting a key that is there replaces its value in
place, setting a new one appends. `get` after `set` is the whole interface the proofs need.
-/

namespace IncusCloud.Lib

open List

variable {K V : Type*} [DecidableEq K] {k : K} {v : V}

abbrev OrdMap (K V : Type*) := List (K × V)

namespace OrdMap

def get (m : OrdMap K V) (k : K) : Option V := (m.find? fun e => e.1 = k).map (·.2)

def set (m : OrdMap K V) (k : K) (v : V) : OrdMap K V :=
  if m.any fun e => e.1 = k then m.map fun e => if e.1 = k then (k, v) else e else m ++ [(k, v)]

def erase (m : OrdMap K V) (k : K) : OrdMap K V := m.filter fun e => e.1 ≠ k

/-- `new Map(entries)`. -/
def ofList (l : List (K × V)) : OrdMap K V := l.foldl (fun m e => m.set e.1 e.2) []

def push (m : OrdMap K (List V)) (k : K) (v : V) : OrdMap K (List V) :=
  m.set k ((m.get k).getD [] ++ [v])

@[simp] theorem get_nil (k : K) : get ([] : OrdMap K V) k = none := rfl

theorem get_cons (e : K × V) (m : OrdMap K V) (k : K) :
    get (e :: m) k = if e.1 = k then some e.2 else get m k := by
  unfold get
  by_cases h : e.1 = k
  · rw [List.find?_cons_of_pos (by simpa using h), if_pos h]
    rfl
  · rw [List.find?_cons_of_neg (by simpa using h), if_neg h]

theorem get_map_set (m : OrdMap K V) (k : K) (v : V) (k' : K) :
    get (m.map fun e => if e.1 = k then (k, v) else e) k' =
      if k' = k then (if m.any fun e => e.1 = k then some v else none) else get m k' := by
  induction m with
  | nil => simp
  | cons e m ih =>
    rw [map_cons, get_cons, ih, get_cons]
    by_cases hk' : k' = k
    · subst hk'
      by_cases he : e.1 = k'
      · simp [he]
      · have hd : decide (e.1 = k') = false := decide_eq_false he
        rw [if_pos rfl, if_neg he, if_neg he, if_pos rfl, any_cons, hd, Bool.false_or]
    · have hk : ¬ k = k' := fun h => hk' h.symm
      by_cases he : e.1 = k
      · rw [if_neg hk', if_pos he, if_neg hk, he, if_neg hk, if_neg hk']
      · rw [if_neg hk', if_neg he, if_neg hk']

theorem get_map_entry (m : OrdMap K V) (k : K) (f : V → V) (k' : K) :
    get (m.map fun e => if e.1 = k then (e.1, f e.2) else e) k' =
      if k' = k then (m.get k).map f else m.get k' := by
  induction m with
  | nil => simp
  | cons e m ih =>
    rw [map_cons, get_cons, ih, get_cons, get_cons]
    by_cases he : e.1 = k
    · rw [if_pos he]
      by_cases hk : k' = k
      · simp [hk, he]
      · have hne : ¬ e.1 = k' := fun h => hk (h.symm.trans he)
        simp [hk, hne]
    · rw [if_neg he]
      by_cases hk : k' = k
      · simp [hk, he]
      · simp [hk]

theorem get_append_singleton (m : OrdMap K V) (k : K) (v : V) (k' : K)
    (h : ¬ m.any (fun e => e.1 = k)) :
    get (m ++ [(k, v)]) k' = if k' = k then some v else get m k' := by
  induction m with
  | nil => simp [get_cons, eq_comm]
  | cons e m ih =>
    simp only [any_cons, Bool.or_eq_true, decide_eq_true_eq, not_or] at h
    rw [cons_append, get_cons, ih (by simpa using h.2), get_cons]
    by_cases hk' : k' = k
    · subst hk'
      simp [h.1]
    · simp [hk']

theorem get_set (m : OrdMap K V) (k : K) (v : V) (k' : K) :
    (m.set k v).get k' = if k' = k then some v else m.get k' := by
  unfold set
  split_ifs with h hk hk
  · rw [get_map_set, if_pos hk, if_pos h]
  · rw [get_map_set, if_neg hk]
  · rw [get_append_singleton m k v k' h, if_pos hk]
  · rw [get_append_singleton m k v k' h, if_neg hk]

variable {m : OrdMap K V}

theorem set_of_not_mem (h : k ∉ m.map (·.1)) (v : V) : m.set k v = m ++ [(k, v)] := by
  refine if_neg fun hany => h ?_
  obtain ⟨e, he, hk⟩ := any_eq_true.mp hany
  exact List.mem_map.mpr ⟨e, he, of_decide_eq_true hk⟩

theorem get_append (m m' : OrdMap K V) (k : K) : get (m ++ m') k = (m.get k).or (m'.get k) := by
  induction m with
  | nil => rfl
  | cons e m ih =>
    rw [cons_append, get_cons, ih, get_cons]
    split_ifs <;> rfl

theorem get_filter (m : OrdMap K V) (p : K → Bool) (k : K) :
    get (m.filter fun e => p e.1) k = if p k = true then m.get k else none := by
  induction m with
  | nil => simp
  | cons e m ih =>
    rw [filter_cons, get_cons]
    by_cases he : e.1 = k
    · subst he
      by_cases hp : p e.1 = true
      · rw [if_pos hp, if_pos hp, get_cons, if_pos rfl, if_pos rfl]
      · rw [if_neg hp, ih, if_neg hp, if_neg hp]
    · rw [if_neg he, ← ih]
      by_cases hp : p e.1 = true
      · rw [if_pos hp, get_cons, if_neg he]
      · rw [if_neg hp]

theorem get_erase (m : OrdMap K V) (k k' : K) :
    (m.erase k).get k' = if k' = k then none else m.get k' := by
  induction m with
  | nil => simp [erase]
  | cons e m ih =>
    by_cases he : e.1 = k
    · have hdrop : erase (e :: m) k = erase m k := by simp [erase, he]
      rw [hdrop, ih, get_cons]
      by_cases hk : k' = k
      · simp [hk]
      · have hne : ¬ k = k' := fun h => hk h.symm
        rw [if_neg hk, if_neg hk, he, if_neg hne]
    · have hkeep : erase (e :: m) k = e :: erase m k := by simp [erase, he]
      rw [hkeep, get_cons, ih, get_cons]
      by_cases hk : k' = k
      · rw [if_pos hk, if_pos hk, hk, if_neg he]
      · rw [if_neg hk, if_neg hk]

theorem isSome_get (m : OrdMap K V) (k : K) : (m.get k).isSome = true ↔ k ∈ m.map (·.1) := by
  induction m with
  | nil => simp
  | cons e m ih =>
    rw [get_cons, map_cons, mem_cons]
    split_ifs with he
    · simp [he]
    · rw [ih]
      simp [Ne.symm he]

theorem get_rename {new : K} (hnew : m.get new = none) (old k : K) :
    get (m.map fun e => if e.1 = old then (new, e.2) else e) k =
      if k = new then m.get old else if k = old then none else m.get k := by
  induction m with
  | nil => simp
  | cons e m ih =>
    rw [get_cons] at hnew
    split_ifs at hnew with he
    rw [map_cons, get_cons, ih hnew, get_cons, get_cons]
    by_cases hold : e.1 = old
    · have hkey : ¬ old = new := fun h => he (hold.trans h)
      rw [if_pos hold, if_pos hold]
      by_cases hk : k = new
      · rw [if_pos hk.symm, if_pos hk]
      · rw [if_neg fun h => hk h.symm, if_neg hk, if_neg hk, hold]
        by_cases hk' : k = old
        · rw [if_pos hk', if_pos hk']
        · rw [if_neg hk', if_neg hk', if_neg fun h => hk' h.symm]
    · rw [if_neg hold, if_neg hold]
      by_cases hk : k = new
      · rw [if_neg fun h => he (h.trans hk), if_pos hk, if_pos hk]
      · rw [if_neg hk, if_neg hk]
        by_cases hk' : k = old
        · rw [if_neg fun h => hold (h.trans hk'), if_pos hk', if_pos hk']
        · rw [if_neg hk', if_neg hk']

theorem mem_of_mem_set {e : K × V} (h : e ∈ m.set k v) : e = (k, v) ∨ e ∈ m ∧ e.1 ≠ k := by
  unfold set at h
  split_ifs at h with hany
  · obtain ⟨x, hx, rfl⟩ := List.mem_map.mp h
    by_cases hk : x.1 = k
    · exact .inl (if_pos hk)
    · rw [if_neg hk]
      exact .inr ⟨hx, hk⟩
  · rcases mem_append.mp h with h | h
    · refine .inr ⟨h, fun hk => hany ?_⟩
      exact any_eq_true.mpr ⟨e, h, decide_eq_true hk⟩
    · exact .inl (mem_singleton.mp h)

theorem mem_set {e : K × V} (h : e ∈ m.set k v) : e = (k, v) ∨ e ∈ m :=
  (mem_of_mem_set h).imp_right And.left

theorem any_set (m : OrdMap K V) (k k' : K) (v : V) :
    (m.set k v).any (fun e => e.1 = k') = (decide (k = k') || m.any fun e => e.1 = k') := by
  unfold set
  split_ifs with h
  · rw [any_map]
    have hkey : ((fun e : K × V => decide (e.1 = k')) ∘ fun e => if e.1 = k then (k, v) else e) =
        fun e => decide (e.1 = k') := by
      funext e
      simp only [Function.comp]
      split_ifs with he
      · simp [he]
      · rfl
    rw [hkey]
    by_cases hk : k = k'
    · rw [← hk, h]
      simp
    · simp [hk]
  · rw [any_append, Bool.or_comm]
    simp

theorem mem_ofList_map {α : Type*} {f : α → K} {ts : List α} {e : K × α}
    (h : e ∈ ofList (ts.map fun t => (f t, t))) : e.2 ∈ ts ∧ e.1 = f e.2 := by
  suffices hgen : ∀ m : OrdMap K α, e ∈ (ts.map fun t => (f t, t)).foldl (fun m e => m.set e.1 e.2) m →
      (e.2 ∈ ts ∧ e.1 = f e.2) ∨ e ∈ m by
    exact (hgen [] h).resolve_right not_mem_nil
  clear h
  induction ts with
  | nil => exact fun m h => .inr h
  | cons t ts ih =>
    intro m h
    rcases ih _ h with h | h
    · exact .inl ⟨mem_cons_of_mem _ h.1, h.2⟩
    · rcases mem_set h with rfl | h
      · exact .inl ⟨mem_cons_self, rfl⟩
      · exact .inr h

theorem any_ofList_map {α : Type*} (f : α → K) (ts : List α) (k : K) :
    ((ofList (ts.map fun t => (f t, t))).any fun e => e.1 = k) = ts.any fun t => f t = k := by
  suffices hgen : ∀ m : OrdMap K α,
      ((ts.map fun t => (f t, t)).foldl (fun m e => m.set e.1 e.2) m).any (fun e => e.1 = k) =
        ((ts.any fun t => f t = k) || m.any fun e => e.1 = k) by
    rw [ofList, hgen []]
    simp
  induction ts with
  | nil => simp
  | cons t ts ih =>
    intro m
    rw [map_cons, foldl_cons, ih, any_set, any_cons]
    cases decide (f t = k) <;> simp

theorem get_ofList (l : List (K × V)) (k : K) :
    (ofList l).get k = ((l.filter fun e => e.1 = k).getLast?).map (·.2) := by
  suffices h : ∀ m : OrdMap K V, (l.foldl (fun m e => m.set e.1 e.2) m).get k =
      (((l.filter fun e => e.1 = k).getLast?).map (·.2)).or (m.get k) by
    have hempty := h []
    rw [get_nil, Option.or_none] at hempty
    exact hempty
  induction l with
  | nil => exact fun m => rfl
  | cons e l ih =>
    intro m
    rw [foldl_cons, ih, get_set]
    by_cases he : e.1 = k
    · rw [if_pos he.symm, filter_cons_of_pos (by simpa using he), List.getLast?_cons]
      cases (l.filter fun e => e.1 = k).getLast? <;> rfl
    · rw [if_neg (Ne.symm he), filter_cons_of_neg (by simpa using he)]

theorem get_ofList_map (f : K → V) (ks : List K) (k : K) :
    (ofList (ks.map fun k => (k, f k))).get k = if k ∈ ks then some (f k) else none := by
  suffices h : ∀ m : OrdMap K V,
      ((ks.map fun k => (k, f k)).foldl (fun m e => m.set e.1 e.2) m).get k =
        if k ∈ ks then some (f k) else m.get k from h []
  induction ks with
  | nil => simp
  | cons a ks ih =>
    intro m
    rw [map_cons, foldl_cons, ih, get_set]
    by_cases hk : k ∈ ks
    · simp [hk]
    · by_cases ha : k = a
      · simp [ha]
      · simp [hk, ha]

theorem mem_of_mem_ofList {l : List (K × V)} {e : K × V} (h : e ∈ ofList l) : e ∈ l := by
  suffices hm : ∀ m : OrdMap K V, e ∈ l.foldl (fun m e => m.set e.1 e.2) m → e ∈ l ∨ e ∈ m by
    rcases hm [] h with h | h
    · exact h
    · simp at h
  clear h
  induction l with
  | nil => exact fun m h => .inr h
  | cons a l ih =>
    intro m h
    rcases ih _ h with h | h
    · exact .inl (mem_cons_of_mem _ h)
    · rcases mem_set h with h | h
      · exact .inl (h ▸ mem_cons_self)
      · exact .inr h

theorem mem_of_get (h : m.get k = some v) : (k, v) ∈ m := by
  unfold get at h
  obtain ⟨e, he, rfl⟩ := Option.map_eq_some_iff.mp h
  have hk : e.1 = k := by simpa using List.find?_some he
  rw [← hk]
  exact mem_of_find?_eq_some he

theorem get_of_mem (hm : (m.map (·.1)).Nodup) (h : (k, v) ∈ m) : m.get k = some v := by
  induction m with
  | nil => simp at h
  | cons e m ih =>
    rw [map_cons, nodup_cons] at hm
    rw [get_cons]
    rcases mem_cons.mp h with rfl | h
    · simp
    · have hne : ¬ e.1 = k := by
        intro he
        exact hm.1 (List.mem_map.mpr ⟨(k, v), h, he.symm⟩)
      rw [if_neg hne, ih hm.2 h]

theorem map_fst_map_set (m : OrdMap K V) (k : K) (v : V) :
    (m.map fun e => if e.1 = k then (k, v) else e).map (·.1) = m.map (·.1) := by
  rw [map_map]
  refine map_congr_left fun e _ => ?_
  by_cases h : e.1 = k
  · simp [h]
  · simp [h]

theorem nodup_keys_set (hm : (m.map (·.1)).Nodup) (k : K) (v : V) :
    ((m.set k v).map (·.1)).Nodup := by
  unfold set
  split_ifs with h
  · rwa [map_fst_map_set]
  · rw [map_append, nodup_append]
    refine ⟨hm, by simp, ?_⟩
    rintro a ha b hb rfl
    simp only [map_cons, map_nil, mem_singleton] at hb
    subst hb
    obtain ⟨e, he, hk⟩ := List.mem_map.mp ha
    exact h (any_eq_true.mpr ⟨e, he, by simpa using hk⟩)

theorem nodup_keys_ofList (l : List (K × V)) : ((ofList l).map (·.1)).Nodup := by
  suffices h : ∀ m : OrdMap K V, (m.map (·.1)).Nodup →
      ((l.foldl (fun m e => m.set e.1 e.2) m).map (·.1)).Nodup from h [] (by simp)
  induction l with
  | nil => exact fun m h => h
  | cons a l ih => exact fun m h => ih _ (nodup_keys_set h a.1 a.2)

theorem ofList_eq_self {l : List (K × V)} (h : (l.map (·.1)).Nodup) : ofList l = l := by
  suffices hm : ∀ m : OrdMap K V, ((m ++ l).map (·.1)).Nodup →
      l.foldl (fun m e => m.set e.1 e.2) m = m ++ l from hm [] h
  clear h
  induction l with
  | nil => simp
  | cons e l ih =>
    intro m hm
    have hnew : ¬ m.any (fun x => x.1 = e.1) = true := by
      intro hany
      obtain ⟨x, hx, hk⟩ := any_eq_true.mp hany
      rw [map_append, nodup_append] at hm
      exact hm.2.2 x.1 (mem_map_of_mem hx) e.1 (by simp) (of_decide_eq_true hk)
    have hset : m.set e.1 e.2 = m ++ [e] := if_neg hnew
    rw [foldl_cons, hset, ih _ (by simpa using hm), append_assoc, singleton_append]

theorem mem_keys_set (m : OrdMap K V) (k k' : K) (v : V) :
    k' ∈ (m.set k v).map (·.1) ↔ k' = k ∨ k' ∈ m.map (·.1) := by
  rw [← isSome_get, ← isSome_get, get_set]
  split_ifs with h
  · simp [h]
  · simp [h]

theorem mem_keys_erase (m : OrdMap K V) (k k' : K) :
    k' ∈ (m.erase k).map (·.1) ↔ k' ≠ k ∧ k' ∈ m.map (·.1) := by
  rw [← isSome_get, ← isSome_get, get_erase]
  split_ifs with h
  · simp [h]
  · simp [h]

theorem nodup_keys_erase (hm : (m.map (·.1)).Nodup) (k : K) : ((m.erase k).map (·.1)).Nodup :=
  hm.sublist (filter_sublist.map _)

theorem length_set_of_mem (h : k ∈ m.map (·.1)) (v : V) : (m.set k v).length = m.length := by
  obtain ⟨e, he, hk⟩ := List.mem_map.mp h
  have hany : (m.any fun e => e.1 = k) = true := any_eq_true.mpr ⟨e, he, decide_eq_true hk⟩
  unfold set
  rw [if_pos hany, length_map]

theorem length_set_le (m : OrdMap K V) (k : K) (v : V) : (m.set k v).length ≤ m.length + 1 := by
  unfold set
  split_ifs with h
  · rw [length_map]
    omega
  · simp

theorem length_erase_lt (h : k ∈ m.map (·.1)) : (m.erase k).length < m.length := by
  obtain ⟨e, he, hk⟩ := List.mem_map.mp h
  unfold erase
  apply length_filter_lt_length_iff_exists.mpr
  exact ⟨e, he, by simp [hk]⟩

end OrdMap

end IncusCloud.Lib
