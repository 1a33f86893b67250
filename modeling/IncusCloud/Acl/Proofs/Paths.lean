import IncusCloud.Acl.Paths
import Mathlib.Data.List.Nodup

/-!
# Permission paths have one spelling

`parsePath_formatPath` and `formatPath_of_parsePath`: on paths whose names match `NAME` the text
and the path determine each other. For the paths that names free of slashes spell, `parsePath`
answers by the names alone (`parsePath_of_noSlash`): that is what the rest of the
development uses, since Incus has project names `NAME` does not accept.
-/

open List

namespace IncusCloud.Acl

open Lib (split join split_join join_split)

variable {s : String} {p : AclPath}

/-! ### Names -/

theorem isName_chars (h : isName s = true) {c : Char} (hc : c ∈ s.toList) :
    c.isAlphanum ∨ c = '.' ∨ c = '_' ∨ c = '-' := by
  unfold isName at h
  split at h
  · exact absurd h Bool.false_ne_true
  · rename_i a cs hcs
    rw [hcs] at hc
    simp only [Bool.and_eq_true, all_eq_true, Bool.or_eq_true, decide_eq_true_eq] at h
    rcases mem_cons.mp hc with rfl | hc
    · exact .inl h.1.1
    · rcases h.2 c hc with ((h | h) | h) | h
      · exact .inl h
      · exact .inr (.inl h)
      · exact .inr (.inr (.inl h))
      · exact .inr (.inr (.inr h))

theorem slash_not_mem_of_isName (h : isName s = true) : '/' ∉ s.toList := by
  intro hc
  rcases isName_chars h hc with h | h | h | h <;> exact absurd h (by decide)

/-! ### Segments -/

/-- A path's segments: what `split` finds between the slashes after the first. -/
def segments : AclPath → List String
  | .root => [""]
  | .platform => ["platform"]
  | .cluster c => ["clusters", c]
  | .group c g => ["clusters", c, "groups", g]
  | .project c p => ["clusters", c, "projects", p]
  | .inst c p i => ["clusters", c, "projects", p, "instances", i]
  | .tenant t => ["tenants", t]
  | .kubernetes t n => ["tenants", t, "kubernetes", n]

def AclPath.names : AclPath → List String
  | .root | .platform => []
  | .cluster c => [c]
  | .group c g => [c, g]
  | .project c p => [c, p]
  | .inst c p i => [c, p, i]
  | .tenant t => [t]
  | .kubernetes t n => [t, n]

theorem formatPath_eq_join (p : AclPath) : formatPath p = "/" ++ join '/' (segments p) := by
  rw [← String.toList_inj]
  unfold formatPath
  cases p <;> simp [segments, join, List.intercalate, List.intersperse]

theorem slash_not_mem_segments (h : ∀ n ∈ p.names, '/' ∉ n.toList) :
    ∀ x ∈ segments p, '/' ∉ x.toList := by
  cases p <;> simp_all [segments, AclPath.names]

theorem split_formatPath (h : ∀ n ∈ p.names, '/' ∉ n.toList) :
    split '/' (String.ofList ((formatPath p).toList.drop 1)) = segments p := by
  have hdrop : String.ofList ((formatPath p).toList.drop 1) = join '/' (segments p) := by
    rw [formatPath_eq_join, String.toList_append]
    simp
  rw [hdrop]
  exact split_join '/' (by cases p <;> simp [segments]) (slash_not_mem_segments h)

theorem formatPath_injective {q : AclPath} (hp : ∀ n ∈ p.names, '/' ∉ n.toList)
    (hq : ∀ n ∈ q.names, '/' ∉ n.toList) (h : formatPath p = formatPath q) : p = q := by
  have hseg : segments p = segments q := by rw [← split_formatPath hp, h, split_formatPath hq]
  cases p <;> cases q <;> simp_all [segments]

/-! ### Parsing -/

theorem head?_formatPath (p : AclPath) : (formatPath p).toList.head? = some '/' := by
  unfold formatPath
  cases p <;> simp

theorem parsePath_eq_parseParts (hn : p.names ≠ [])
    (h : ∀ n ∈ p.names, '/' ∉ n.toList) : parsePath (formatPath p) = parseParts (segments p) := by
  have hroot : formatPath p ≠ "/" := by
    intro he
    have := formatPath_injective h (q := .root) (by simp [AclPath.names]) he
    subst this
    exact hn rfl
  have hplat : formatPath p ≠ "/platform" := by
    intro he
    have := formatPath_injective h (q := .platform) (by simp [AclPath.names]) he
    subst this
    exact hn rfl
  rw [parsePath, if_neg hroot, if_neg hplat, if_neg (by simp [head?_formatPath]),
    split_formatPath h]

theorem parseParts_segments (hn : p.names ≠ []) :
    parseParts (segments p) = if p.names.all isName then some p else none := by
  cases p with
  | root => exact absurd rfl hn
  | platform => exact absurd rfl hn
  | cluster c => cases hc : isName c <;> simp [parseParts, segments, AclPath.names, hc]
  | group c g =>
    cases hc : isName c <;> cases hg : isName g <;>
      simp [parseParts, segments, AclPath.names, hc, hg]
  | project c p =>
    cases hc : isName c <;> cases hp : isName p <;>
      simp [parseParts, segments, AclPath.names, hc, hp]
  | inst c p i =>
    cases hc : isName c <;> cases hp : isName p <;> cases hi : isName i <;>
      simp [parseParts, segments, AclPath.names, hc, hp, hi]
  | tenant t => cases ht : isName t <;> simp [parseParts, segments, AclPath.names, ht]
  | kubernetes t n =>
    cases ht : isName t <;> cases hn : isName n <;>
      simp [parseParts, segments, AclPath.names, ht, hn]

theorem parsePath_of_noSlash (h : ∀ n ∈ p.names, '/' ∉ n.toList) :
    parsePath (formatPath p) = if p.names.all isName then some p else none := by
  by_cases hn : p.names = []
  · cases p <;> first | decide | (simp [AclPath.names] at hn)
  · rw [parsePath_eq_parseParts hn h, parseParts_segments hn]

theorem parsePath_formatPath (h : p.names.all isName = true) :
    parsePath (formatPath p) = some p := by
  have hs : ∀ n ∈ p.names, '/' ∉ n.toList := fun n hn =>
    slash_not_mem_of_isName (all_eq_true.mp h n hn)
  rw [parsePath_of_noSlash hs, if_pos h]

theorem segments_of_parseParts {parts : List String} (h : parseParts parts = some p) :
    segments p = parts ∧ p.names ≠ [] := by
  unfold parseParts at h
  split_ifs at h with hany
  split at h
  case h_7 => exact nomatch h
  all_goals
    obtain rfl := Option.some.inj h
    exact ⟨rfl, by simp [AclPath.names]⟩

theorem formatPath_of_parsePath (h : parsePath s = some p) :
    formatPath p = s ∧ p.names.all isName = true := by
  unfold parsePath at h
  split_ifs at h with hroot hplat hslash
  · obtain rfl := Option.some.inj h
    exact ⟨hroot.symm, rfl⟩
  · obtain rfl := Option.some.inj h
    exact ⟨hplat.symm, rfl⟩
  · obtain ⟨hseg, hn⟩ := segments_of_parseParts h
    have hall : p.names.all isName = true := by
      rw [← hseg, parseParts_segments hn] at h
      split_ifs at h with hall
      exact hall
    refine ⟨?_, hall⟩
    rw [formatPath_eq_join, hseg, join_split, ← String.toList_inj]
    -- The text starts with the slash `parsePath` dropped.
    cases hl : s.toList with
    | nil => simp [hl] at hslash
    | cons c cs =>
      simp only [hl, List.head?_cons, ne_eq, Option.some.injEq, not_not] at hslash
      simp [hslash]

theorem names_noSlash_of_parsePath (h : parsePath s = some p) :
    ∀ n ∈ p.names, '/' ∉ n.toList := fun n hn =>
  slash_not_mem_of_isName (all_eq_true.mp (formatPath_of_parsePath h).2 n hn)

/-!
### The paths of a chain

A chain is the texts of paths (`lineage`), each of which is another's: so they parse, and no two are
the same (`one_spelling`).
-/

def tenantPath : Option String → List AclPath
  | some t => if t = "" then [] else [.tenant t]
  | none => []

def lineage (tenantOf : String → String → Option String) : AclPath → List AclPath
  | .root => [.root]
  | .platform => [.platform, .root]
  | .tenant t => [.tenant t, .root]
  | .cluster c => [.cluster c, .root]
  | .group c g => [.group c g, .cluster c, .root]
  | .kubernetes t n => [.kubernetes t n, .tenant t, .root]
  | .project c p => .project c p :: tenantPath (tenantOf c p) ++ [.cluster c, .root]
  | .inst c p i => .inst c p i :: .project c p :: tenantPath (tenantOf c p) ++ [.cluster c, .root]

section Chain

variable {tenantOf : String → String → Option String}

theorem tenantLevel_eq (t : Option String) : tenantLevel t = (tenantPath t).map formatPath := by
  cases t with
  | none => rfl
  | some t =>
    unfold tenantLevel tenantPath
    dsimp only
    split_ifs <;> rfl

theorem chain_eq_lineage (p : AclPath) : chain tenantOf p = (lineage tenantOf p).map formatPath := by
  cases p with
  | project c p =>
    show formatPath _ :: tenantLevel (tenantOf c p) ++ _ = _
    rw [tenantLevel_eq]
    simp [lineage]
    rfl
  | inst c p i =>
    show formatPath _ :: formatPath _ :: tenantLevel (tenantOf c p) ++ _ = _
    rw [tenantLevel_eq]
    simp [lineage]
    rfl
  | _ => rfl

theorem mem_tenantPath {t : Option String} :
    p ∈ tenantPath t ↔ ∃ s, t = some s ∧ s ≠ "" ∧ p = .tenant s := by
  cases t with
  | none => simp [tenantPath]
  | some s =>
    by_cases hs : s = ""
    · simp [tenantPath, hs]
    · simp [tenantPath, hs]

theorem names_of_mem_lineage {x : AclPath} (hx : x ∈ lineage tenantOf p) :
    ∀ n ∈ x.names, n ∈ p.names ∨ ∃ c r, tenantOf c r = some n := by
  have htenant : ∀ c r, x ∈ tenantPath (tenantOf c r) → ∀ n ∈ x.names, ∃ c r, tenantOf c r = some n := by
    intro c r hmem n hn
    obtain ⟨t, ht, -, rfl⟩ := mem_tenantPath.mp hmem
    rw [mem_singleton.mp hn]
    exact ⟨c, r, ht⟩
  intro n hn
  cases p with
  | root =>
    obtain rfl := mem_singleton.mp hx
    exact nomatch hn
  | platform =>
    simp only [lineage, mem_cons, not_mem_nil, or_false] at hx
    rcases hx with rfl | rfl
    · exact nomatch hn
    · exact nomatch hn
  | group c g =>
    simp only [lineage, mem_cons, not_mem_nil, or_false] at hx
    rcases hx with rfl | rfl | rfl
    · exact .inl hn
    · exact .inl (mem_append_left [g] hn)
    · exact nomatch hn
  | kubernetes t k =>
    simp only [lineage, mem_cons, not_mem_nil, or_false] at hx
    rcases hx with rfl | rfl | rfl
    · exact .inl hn
    · exact .inl (mem_append_left [k] hn)
    · exact nomatch hn
  | project c p =>
    simp only [lineage, mem_cons, mem_append, not_mem_nil, or_false] at hx
    rcases hx with (rfl | hx) | rfl | rfl
    · exact .inl hn
    · exact .inr (htenant c p hx n hn)
    · exact .inl (mem_append_left [p] hn)
    · exact nomatch hn
  | inst c p i =>
    simp only [lineage, mem_cons, mem_append, not_mem_nil, or_false] at hx
    rcases hx with (rfl | rfl | hx) | rfl | rfl
    · exact .inl hn
    · exact .inl (mem_append_left [i] hn)
    · exact .inr (htenant c p hx n hn)
    · exact .inl (mem_append_left [p, i] hn)
    · exact nomatch hn
  | _ =>
    simp only [lineage, mem_cons, not_mem_nil, or_false] at hx
    rcases hx with rfl | rfl
    · exact .inl hn
    · exact nomatch hn

theorem nodup_lineage (p : AclPath) : (lineage tenantOf p).Nodup := by
  have htenant : ∀ t, (tenantPath t).Nodup := by
    intro t
    cases t with
    | none => exact nodup_nil
    | some s =>
      unfold tenantPath
      dsimp only
      split_ifs
      · exact nodup_nil
      · exact pairwise_singleton _ _
  have hends : ∀ t c, (tenantPath t ++ [AclPath.cluster c, AclPath.root]).Nodup := by
    intro t c
    rw [nodup_append]
    refine ⟨htenant t, by simp, fun x hx y hy => ?_⟩
    obtain ⟨s, -, -, rfl⟩ := mem_tenantPath.mp hx
    rcases mem_cons.mp hy with rfl | hy
    · exact AclPath.noConfusion
    · rw [mem_singleton.mp hy]
      exact AclPath.noConfusion
  cases p with
  | project c p => simp [lineage, mem_tenantPath, hends]
  | inst c p i => simp [lineage, mem_tenantPath, hends]
  | _ => simp [lineage]

theorem head_lineage (p : AclPath) : (lineage tenantOf p).head? = some p := by
  cases p <;> rfl

theorem getLast_lineage (p : AclPath) : (lineage tenantOf p).getLast? = some .root := by
  have hends : ∀ l : List AclPath, ∀ q c, (q :: (l ++ [AclPath.cluster c, AclPath.root])).getLast? = some .root := by
    intro l q c
    have hlast : q :: (l ++ [AclPath.cluster c, AclPath.root]) = (q :: l ++ [AclPath.cluster c]) ++ [AclPath.root] := by
      simp
    rw [hlast, List.getLast?_concat]
  cases p <;> simp [lineage, hends]

/-- **One spelling**: a path's text and the path determine each other, and the texts of a chain are
those of different paths, from the path itself to the root. -/
theorem one_spelling :
    (∀ s p, parsePath s = some p → formatPath p = s) ∧
      ∀ p : AclPath, p.names.all isName = true → parsePath (formatPath p) = some p ∧
        ∀ tenantOf : String → String → Option String, (∀ c r t, tenantOf c r = some t → isName t = true) →
          (∀ x ∈ chain tenantOf p, (parsePath x).isSome = true) ∧ (chain tenantOf p).Nodup ∧
            (chain tenantOf p).head? = some (formatPath p) ∧ (chain tenantOf p).getLast? = some "/" := by
  refine ⟨fun s p h => (formatPath_of_parsePath h).1, fun p hp => ⟨parsePath_formatPath hp, ?_⟩⟩
  intro tenantOf hslug
  have hnames : ∀ x ∈ lineage tenantOf p, x.names.all isName = true := by
    intro x hx
    rw [all_eq_true] at hp ⊢
    intro n hn
    rcases names_of_mem_lineage hx n hn with hown | ⟨c, r, ht⟩
    · exact hp n hown
    · exact hslug c r n ht
  rw [chain_eq_lineage]
  refine ⟨?_, ?_, ?_, ?_⟩
  · intro x hx
    obtain ⟨y, hy, rfl⟩ := List.mem_map.mp hx
    rw [parsePath_formatPath (hnames y hy)]
    rfl
  · -- Different paths have different texts.
    apply List.Nodup.map_on ?_ (nodup_lineage p)
    intro x hx y hy hxy
    have hparse := congrArg parsePath hxy
    rw [parsePath_formatPath (hnames x hx), parsePath_formatPath (hnames y hy)] at hparse
    exact Option.some.inj hparse
  · rw [List.head?_map, head_lineage]
    rfl
  · rw [List.getLast?_map, getLast_lineage]
    rfl

end Chain

end IncusCloud.Acl
