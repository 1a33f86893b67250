import IncusCloud.Acl.Proofs.Paths
import IncusCloud.Fleet.Lifecycle
import Mathlib.Data.List.Dedup

/-!
# What the statements do to what a name has

Each table has something for each name: an owner, a lease, the entries on its path. A rename that
finds nothing on the new name gives it what the old one had, a delete leaves nothing, and neither
touches another name.
-/

namespace IncusCloud.Fleet

open Lib Acl List

/-! ### Paths -/

variable {cluster : Name} {k k' : InstanceKey}

theorem instancePath_inj (h : instancePath cluster k = instancePath cluster k') : k = k' := by
  have hnames : ∀ (k : InstanceKey), ∀ n ∈ (AclPath.inst cluster.text k.project.text k.name.text).names,
      '/' ∉ n.toList := by
    intro k n hn
    simp only [AclPath.names, mem_cons, not_mem_nil, or_false] at hn
    obtain rfl | rfl | rfl := hn
    · exact cluster.noSlash
    · exact k.project.noSlash
    · exact k.name.noSlash
  have hpath := formatPath_injective (hnames k) (hnames k') h
  obtain ⟨-, hproject, hname⟩ := AclPath.inst.inj hpath
  cases k
  cases k'
  simp only [InstanceKey.mk.injEq]
  exact ⟨Name.ext_text hproject, Name.ext_text hname⟩

theorem count_slash_instancePath (cluster : Name) (k : InstanceKey) :
    (instancePath cluster k).toList.count '/' = 6 := by
  have hname : ∀ n : Name, n.text.toList.count '/' = 0 := fun n => count_eq_zero.mpr n.noSlash
  simp only [instancePath, String.toList_append, count_append, hname]
  decide

variable {r : EntryRow}

theorem entriesUnder_iff (hr : r.path = instancePath cluster k') :
    entriesUnder (instancePath cluster k) r = true ↔ k = k' := by
  unfold entriesUnder
  rw [hr, Bool.or_eq_true, decide_eq_true_iff, isPrefixOf_iff_prefix]
  constructor
  · rintro (h | h)
    · exact (instancePath_inj h).symm
    · have hle := h.sublist.count_le '/'
      rw [String.toList_append, count_append, count_slash_instancePath,
        count_slash_instancePath] at hle
      exact absurd hle (by decide)
  · rintro rfl
    exact .inl rfl

/-! ### Keyed tables -/

section

variable {V : Type} {t : InstanceKey → Option V} {new : InstanceKey}

theorem rekey_spec (old : InstanceKey) (hnew : t new = none) :
    ∃ t', rekey t old new = some t' ∧
      ∀ k, t' k = if k = new then t old else if k = old then none else t k := by
  unfold rekey
  cases hold : t old with
  | none =>
    refine ⟨t, rfl, fun k => ?_⟩
    split_ifs with h1 h2
    · rw [h1, hnew]
    · rw [h2, hold]
    · rfl
  | some row =>
    refine ⟨_, if_neg (by rw [hnew]; simp), fun k => ?_⟩
    simp only [Function.update_apply]

theorem forget_apply (t : InstanceKey → Option V) (k k' : InstanceKey) :
    forget t k k' = if k' = k then none else t k' := Function.update_apply t k none k'

end

section

variable {t : InstanceKey → Option Owner} {subject : Bool × Uuid}

theorem recordOwner_of_ne {source : OwnerSource} (hne : k' ≠ k) :
    recordOwner t k subject source k' = t k' := by
  unfold recordOwner
  cases t k with
  | none => exact Function.update_of_ne hne _ _
  | some old =>
    dsimp only
    split_ifs
    · exact Function.update_of_ne hne _ _
    · rfl

theorem recordOwner_event (h : ∀ o, t k = some o → o.source = .backfill) :
    recordOwner t k subject .event k = some ⟨some subject, .event⟩ := by
  unfold recordOwner
  cases hold : t k with
  | none => exact Function.update_self _ _ _
  | some old =>
    have hrank : sourceRank old.source ≤ sourceRank .event := by
      rw [h old hold]
      decide
    dsimp only
    rw [if_pos ⟨by decide, hrank⟩]
    exact Function.update_self _ _ _

theorem recordOwner_backfill :
    recordOwner t k subject .backfill k = (t k).or (some ⟨some subject, .backfill⟩) := by
  unfold recordOwner
  cases hold : t k with
  | none => exact Function.update_self _ _ _
  | some old =>
    dsimp only
    rw [if_neg fun h => h.1 rfl, hold]
    rfl

end

/-! ### Entries -/

def entriesOn (cluster : Name) (rows : List EntryRow) (k : InstanceKey) :
    List (ℕ × SubjectKind × Uuid × String) :=
  (rows.filter (entriesUnder (instancePath cluster k))).map fun r => (r.id, r.grant)

structure RowsOk (cluster : Name) (rows : List EntryRow) : Prop where
  ids : (rows.map (·.id)).Nodup
  unlike : (rows.map fun r => (r.path, r.grant)).Nodup
  exact : ∀ r ∈ rows, ∀ k, entriesUnder (instancePath cluster k) r = true →
    r.path = instancePath cluster k

variable {rows : List EntryRow}

theorem RowsOk.filter (h : RowsOk cluster rows) (p : EntryRow → Bool) :
    RowsOk cluster (rows.filter p) :=
  ⟨h.ids.sublist (filter_sublist.map _), h.unlike.sublist (filter_sublist.map _),
    fun r hr => h.exact r (mem_filter.mp hr).1⟩

theorem length_le_utf16Length (s : String) : s.toList.length ≤ utf16Length s := by
  unfold utf16Length
  induction s.toList with
  | nil => exact le_rfl
  | cons c cs ih =>
    rw [map_cons, sum_cons, length_cons]
    split_ifs <;> omega

theorem moved_path {old : String} (new : String) (hr : r.path = old) :
    new ++ String.ofList (r.path.toList.drop (utf16Length old)) = new := by
  rw [hr, drop_of_length_le (length_le_utf16Length old)]
  exact String.append_empty

theorem mem_entriesOn (hr : r ∈ rows)
    (hu : entriesUnder (instancePath cluster k) r = true) :
    (r.id, r.grant) ∈ entriesOn cluster rows k :=
  mem_map_of_mem (mem_filter.mpr ⟨hr, hu⟩)

theorem entriesOn_deleted (hrows : RowsOk cluster rows) (k k' : InstanceKey) :
    entriesOn cluster (rows.filter fun r => !entriesUnder (instancePath cluster k) r) k' =
      if k' = k then [] else entriesOn cluster rows k' := by
  unfold entriesOn
  rw [filter_filter]
  split_ifs with hk
  · rw [hk, map_eq_nil_iff, filter_eq_nil_iff]
    intro r hr
    cases entriesUnder (instancePath cluster k) r <;> simp
  · refine congrArg _ (filter_congr fun r hr => ?_)
    cases hu : entriesUnder (instancePath cluster k') r with
    | false => exact Bool.false_and _
    | true =>
      have hnot : entriesUnder (instancePath cluster k) r = false := by
        rw [Bool.eq_false_iff]
        intro h
        exact hk ((entriesUnder_iff (hrows.exact r hr k' hu)).mp h).symm
      rw [hnot]
      rfl

section

variable {rows : List EntryRow} {old new : InstanceKey}

def EntryRow.moved (cluster : Name) (old new : InstanceKey) (r : EntryRow) : EntryRow :=
  if entriesUnder (instancePath cluster old) r then { r with path := instancePath cluster new } else r

theorem EntryRow.moved_id (r : EntryRow) : (r.moved cluster old new).id = r.id := by
  unfold EntryRow.moved
  split_ifs <;> rfl

theorem EntryRow.moved_grant (r : EntryRow) : (r.moved cluster old new).grant = r.grant := by
  unfold EntryRow.moved
  split_ifs <;> rfl

theorem RowsOk.entriesUnder_moved (hrows : RowsOk cluster rows)
    (hnew : entriesOn cluster rows new = []) (hr : r ∈ rows) (k : InstanceKey) :
    entriesUnder (instancePath cluster k) (r.moved cluster old new) =
      if k = new then entriesUnder (instancePath cluster old) r
      else if k = old then false else entriesUnder (instancePath cluster k) r := by
  unfold EntryRow.moved
  cases hu : entriesUnder (instancePath cluster old) r with
  | true =>
    have hpath := hrows.exact r hr old hu
    have hhere : entriesUnder (instancePath cluster k)
        ⟨r.id, instancePath cluster new, r.grant⟩ = true ↔ k = new := entriesUnder_iff rfl
    have hthere : entriesUnder (instancePath cluster k) r = true ↔ k = old := entriesUnder_iff hpath
    rw [if_pos rfl]
    split_ifs with h1 h2
    · exact hhere.mpr h1
    · exact Bool.eq_false_iff.mpr fun h => h1 (hhere.mp h)
    · rw [Bool.eq_false_iff.mpr fun h => h1 (hhere.mp h), Bool.eq_false_iff.mpr fun h => h2 (hthere.mp h)]
  | false =>
    rw [if_neg Bool.false_ne_true]
    split_ifs with h1 h2
    · rw [h1, Bool.eq_false_iff]
      intro h
      have hmem := mem_entriesOn hr h
      rw [hnew] at hmem
      exact not_mem_nil hmem
    · rw [h2, hu]
    · rfl

theorem RowsOk.unlike_moved (hrows : RowsOk cluster rows) (hnew : entriesOn cluster rows new = []) :
    ((rows.map (EntryRow.moved cluster old new)).map fun r => (r.path, r.grant)).Nodup := by
  rw [map_map]
  refine (hrows.unlike.of_map _).map_on fun r hr r' hr' heq => ?_
  obtain ⟨hpath, hgrant⟩ := Prod.mk.inj heq
  rw [EntryRow.moved_grant, EntryRow.moved_grant] at hgrant
  have hu : entriesUnder (instancePath cluster new) (r.moved cluster old new) =
      entriesUnder (instancePath cluster old) r := by
    rw [hrows.entriesUnder_moved hnew hr, if_pos rfl]
  have hu' : entriesUnder (instancePath cluster new) (r'.moved cluster old new) =
      entriesUnder (instancePath cluster old) r' := by
    rw [hrows.entriesUnder_moved hnew hr', if_pos rfl]
  have hboth : entriesUnder (instancePath cluster old) r =
      entriesUnder (instancePath cluster old) r' := by
    rw [← hu, ← hu']
    unfold entriesUnder
    rw [hpath]
  have hsame : r.path = r'.path := by
    cases h : entriesUnder (instancePath cluster old) r with
    | true => rw [hrows.exact r hr old h, hrows.exact r' hr' old (hboth.symm.trans h)]
    | false =>
      unfold EntryRow.moved at hpath
      rwa [← hboth, h, if_neg Bool.false_ne_true, if_neg Bool.false_ne_true] at hpath
  exact inj_on_of_nodup_map hrows.unlike hr hr' (Prod.ext hsame hgrant)

theorem RowsOk.moved (hrows : RowsOk cluster rows) (hnew : entriesOn cluster rows new = []) :
    RowsOk cluster (rows.map (EntryRow.moved cluster old new)) := by
  refine ⟨?_, hrows.unlike_moved hnew, ?_⟩
  · rw [map_map]
    have hids : rows.map ((·.id) ∘ EntryRow.moved cluster old new) = rows.map (·.id) :=
      map_congr_left fun r _ => r.moved_id
    rw [hids]
    exact hrows.ids
  · intro r' hr' k hu
    obtain ⟨r, hr, rfl⟩ := List.mem_map.mp hr'
    rw [hrows.entriesUnder_moved hnew hr] at hu
    unfold EntryRow.moved
    split_ifs at hu with h1 h2
    · rw [if_pos hu, h1]
    · have hnot : ¬ entriesUnder (instancePath cluster old) r = true := fun h =>
        h2 ((entriesUnder_iff (hrows.exact r hr old h)).mp hu)
      rw [if_neg hnot]
      exact hrows.exact r hr k hu

theorem moveEntries_eq (hrows : RowsOk cluster rows) (hnew : entriesOn cluster rows new = []) :
    moveEntries rows (instancePath cluster old) (instancePath cluster new) =
      some (rows.map (EntryRow.moved cluster old new)) := by
  have hmoved : (rows.map fun r =>
      if entriesUnder (instancePath cluster old) r then
        { r with
          path := instancePath cluster new ++
            String.ofList (r.path.toList.drop (utf16Length (instancePath cluster old))) }
      else r) = rows.map (EntryRow.moved cluster old new) := by
    refine map_congr_left fun r hr => ?_
    unfold EntryRow.moved
    split_ifs with hu
    · rw [moved_path _ (hrows.exact r hr old hu)]
    · rfl
  unfold moveEntries
  simp only [hmoved]
  exact if_pos (hrows.unlike_moved hnew)

theorem entriesOn_moved (hrows : RowsOk cluster rows) (hnew : entriesOn cluster rows new = [])
    (k : InstanceKey) :
    entriesOn cluster (rows.map (EntryRow.moved cluster old new)) k =
      if k = new then entriesOn cluster rows old
      else if k = old then [] else entriesOn cluster rows k := by
  have hpred : (rows.map (EntryRow.moved cluster old new)).filter
      (entriesUnder (instancePath cluster k)) =
        (rows.filter fun r => if k = new then entriesUnder (instancePath cluster old) r
          else if k = old then false else entriesUnder (instancePath cluster k) r).map
            (EntryRow.moved cluster old new) := by
    rw [filter_map]
    exact congrArg _ (filter_congr fun r hr => hrows.entriesUnder_moved hnew hr k)
  have hshown : ∀ rs : List EntryRow, ((rs.map (EntryRow.moved cluster old new)).map
      fun r => (r.id, r.grant)) = rs.map fun r => (r.id, r.grant) := by
    intro rs
    rw [map_map]
    exact map_congr_left fun r _ => Prod.ext r.moved_id r.moved_grant
  unfold entriesOn
  rw [hpred, hshown]
  split_ifs
  · rfl
  · rw [filter_false, map_nil]
  · rfl

end

end IncusCloud.Fleet
