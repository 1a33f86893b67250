import IncusCloud.Federation.Rewrite

/-!
# Reading and writing URLs

What `decode`, `stripName` and `parse` do to the texts the facade writes. The *reading* of a URL is
its decoded segments and parameters; `read_render` says that a URL rendered from segments and
parameters without separators is read as these, and `read_stripRequest` that stripping a request
strips every part of its reading and nothing else.
-/

namespace IncusCloud.Federation

open Lib List
open Option (getD_some map_some)

variable {s u : Text} {segs : List Text}

/-! ### Cluster names -/

def nameChar (ch : Char) : Bool := ch.isLower || ch.isDigit || ch = '-'

theorem ClusterName.not_mem (c : ClusterName) {x : Char} (h : nameChar x = false) : x ∉ c.text := by
  intro hmem
  have hall : c.text.all nameChar = true := by
    have hv := c.valid
    simp only [isClusterName, Bool.and_eq_true] at hv
    exact hv.2
  have := all_eq_true.mp hall x hmem
  rw [h] at this
  cases this

theorem ClusterName.ne_nil (c : ClusterName) : c.text ≠ [] := by
  intro h
  have hv := c.valid
  rw [h] at hv
  exact absurd hv (by decide)

theorem mem_qualify (c : ClusterName) {x : Char} (h : nameChar x = false) (hat : x ≠ '@')
    (n : Text) : x ∈ qualify n c.text ↔ x ∈ n := by
  have hc := c.not_mem h
  simp [qualify, hat, hc]

/-! ### `decode` -/

theorem length_decode_le (s : Text) : (decode s).length ≤ s.length := by
  unfold decode
  cases hd : decodeURIComponent (s.map fun ch => if ch = '+' then ' ' else ch) with
  | none => exact Nat.le_refl _
  | some t => simpa using length_decodeURIComponent t hd

theorem decode_eq_nil : decode s = [] ↔ s = [] := by
  constructor
  · intro h
    unfold decode at h
    cases hd : decodeURIComponent (s.map fun ch => if ch = '+' then ' ' else ch) with
    | none => rwa [hd] at h
    | some t =>
      rw [hd, getD_some] at h
      rw [h] at hd
      exact map_eq_nil_iff.mp (decodeURIComponent_eq_nil hd)
  · rintro rfl
    rfl

theorem decode_of_not_mem (h : '+' ∉ s) : decode s = (decodeURIComponent s).getD s := by
  have hmap : (s.map fun ch => if ch = '+' then ' ' else ch) = s := by
    conv_rhs => rw [← map_id s]
    apply map_congr_left
    intro ch hch
    have hne : ch ≠ '+' := fun heq => h (heq ▸ hch)
    exact if_neg hne
  rw [decode, hmap]

theorem decode_plain (hpercent : '%' ∉ s) (hplus : '+' ∉ s) : decode s = s := by
  rw [decode_of_not_mem hplus]
  clear hplus
  induction s with
  | nil => rfl
  | cons ch s ih =>
    have hch : ch ≠ '%' := fun heq => hpercent (heq ▸ mem_cons_self)
    have hs := ih fun hmem => hpercent (mem_cons_of_mem ch hmem)
    rw [decodeURIComponent_plain hch]
    cases hd : decodeURIComponent s with
    | none => rfl
    | some t =>
      rw [hd, getD_some] at hs
      rw [hs, map_some, getD_some]

@[simp] theorem decode_encode (s : Text) : decode (encodeURIComponent s) = s := by
  have hplus := not_mem_encodeURIComponent (x := '+') (by decide) (by decide) s
  rw [decode_of_not_mem hplus, decodeURIComponent_encode, getD_some]

@[simp] theorem decode_qualify (c : ClusterName) (n : Text) :
    decode (qualify n c.text) = qualify (decode n) c.text := by
  have hplus := c.not_mem (x := '+') (by decide)
  have hpercent : '%' ∉ '@' :: c.text := by
    simp [c.not_mem (x := '%') (by decide)]
  have hmap : ('@' :: c.text).map (fun ch => if ch = '+' then ' ' else ch) = '@' :: c.text := by
    conv_rhs => rw [← map_id ('@' :: c.text)]
    apply map_congr_left
    intro ch hch
    have hne : ch ≠ '+' := by
      rintro rfl
      simp [hplus] at hch
    exact if_neg hne
  unfold decode qualify
  rw [map_append, hmap, decodeURIComponent_append (by decide) hpercent]
  cases decodeURIComponent (n.map fun ch => if ch = '+' then ' ' else ch) <;> rfl

/-! ### `stripName` -/

@[simp] theorem stripName_qualify (n cluster : Text) : stripName (qualify n cluster) cluster = n := by
  have hlen : (qualify n cluster).length - cluster.length - 1 = n.length := by
    simp only [qualify, length_append, length_cons]
    omega
  have hsuffix : '@' :: cluster <:+ qualify n cluster := suffix_append n _
  rw [stripName, if_pos hsuffix, hlen]
  exact take_left

theorem stripName_eq_self {cluster : Text} : stripName s cluster = s ↔ ¬ '@' :: cluster <:+ s := by
  constructor
  · rintro h ⟨n, rfl⟩
    have hstrip : stripName (n ++ '@' :: cluster) cluster = n := stripName_qualify n cluster
    rw [hstrip] at h
    have := congrArg List.length h
    simp at this
  · intro h
    rw [stripName, if_neg h]

theorem length_stripName_le (s cluster : Text) : (stripName s cluster).length ≤ s.length := by
  unfold stripName
  split_ifs
  · exact length_take_le' _ s
  · exact Nat.le_refl _

theorem stripName_nil (cluster : Text) : stripName [] cluster = [] := by
  rw [stripName_eq_self]
  simp

/-! ### `parse` -/

/-- The separators of a path's segments: `/`, and the `?` that ends the path. -/
def IsSeg (s : Text) : Prop := '/' ∉ s ∧ '?' ∉ s

theorem isSeg_of_mem_parse (h : s ∈ (parse u).segs) : IsSeg s := by
  have hs : s ∈ ((cut '?' u).1).splitOn '/' := h
  obtain ⟨hslash, hsub⟩ := mem_splitOn hs
  refine ⟨hslash, fun hmem => ?_⟩
  have := hsub hmem
  rcases cut_cases '?' u with ⟨hu, hcut⟩ | ⟨x, y, hx, -, hcut⟩
  · rw [hcut] at this
    exact hu this
  · rw [hcut] at this
    exact hx this

theorem parse_segs_ne_nil (u : Text) : (parse u).segs ≠ [] := splitOn_ne_nil _ _

@[simp] theorem param_raw (p : Text) : (param p).raw = p := by
  unfold param
  split <;> rfl

theorem parse_params (u : Text) :
    ∃ raws : List Text, (parse u).params = raws.map param ∧ (∀ r ∈ raws, '&' ∉ r) ∧ raws ≠ [[]] := by
  unfold parse
  dsimp only
  cases hq : (cut '?' u).2.getD [] with
  | nil => exact ⟨[], rfl, by simp, by simp⟩
  | cons ch query =>
    refine ⟨(ch :: query).splitOn '&', rfl, fun r hr => (mem_splitOn hr).1, fun hnil => ?_⟩
    have hjoin : ['&'].intercalate ((ch :: query).splitOn '&') = ch :: query :=
      intercalate_splitOn '&'
    rw [hnil] at hjoin
    cases hjoin

theorem param_raw_eq {p : Param} (h : p ∈ (parse u).params) : param p.raw = p ∧ '&' ∉ p.raw := by
  obtain ⟨raws, hparams, hand, -⟩ := parse_params u
  rw [hparams] at h
  obtain ⟨r, hr, rfl⟩ := List.mem_map.mp h
  rw [param_raw]
  exact ⟨rfl, hand r hr⟩

theorem raws_ne_nil {p : Param} (h : (parse u).params = [p]) : p.raw ≠ [] := by
  obtain ⟨raws, hparams, -, hraws⟩ := parse_params u
  rw [hparams] at h
  obtain ⟨r, rfl, rfl⟩ := map_eq_singleton_iff.mp h
  rw [param_raw]
  exact fun hnil => hraws (by rw [hnil])

theorem param_append {k : Text} (hk : '=' ∉ k) (v : Text) :
    param (k ++ '=' :: v) = { k := decode k, v := some (decode v), raw := k ++ '=' :: v } := by
  rw [param, cut_append hk]

theorem parse_segs (u : Text) : (parse u).segs = ((cut '?' u).1).splitOn '/' := rfl

theorem parse_segs_cons (hs : IsSeg s) (t : Text) :
    (parse (s ++ '/' :: t)).segs = s :: (parse t).segs := by
  have hcut : (cut '?' (s ++ '/' :: t)).1 = s ++ '/' :: (cut '?' t).1 := by
    rcases cut_cases '?' t with ⟨ht, hcut⟩ | ⟨x, y, hx, rfl, hcut⟩
    · rw [hcut, cut_of_not_mem (by simp [hs.2, ht])]
    · have hne : '?' ∉ s ++ '/' :: x := by simp [hs.2, hx]
      have happ : s ++ '/' :: (x ++ '?' :: y) = (s ++ '/' :: x) ++ '?' :: y := by simp
      rw [hcut, happ, cut_append hne]
  rw [parse_segs, hcut, splitOn_append_cons_self_of_not_mem hs.1, parse_segs]

theorem render_cons_cons (s s' : Text) (segs params : List Text) :
    render (s :: s' :: segs) params = s ++ '/' :: render (s' :: segs) params := by
  unfold render
  split_ifs <;> simp [intercalate_cons_cons]

theorem parse_render_segs (hne : segs ≠ []) (hsegs : ∀ s ∈ segs, IsSeg s)
    (params : List Text) : (parse (render segs params)).segs = segs := by
  induction segs with
  | nil => exact absurd rfl hne
  | cons s segs ih =>
    have hs := hsegs s mem_cons_self
    cases segs with
    | nil =>
      have hpath : (cut '?' (render [s] params)).1 = s := by
        unfold render
        split_ifs
        · simp [cut_of_not_mem hs.2]
        · simp [cut_append hs.2]
      rw [parse_segs, hpath, splitOn_eq_singleton hs.1]
    | cons s' segs =>
      rw [render_cons_cons, parse_segs_cons hs,
        ih (cons_ne_nil s' segs) fun s hs => hsegs s (mem_cons_of_mem _ hs)]

theorem parse_render_params (hsegs : ∀ s ∈ segs, IsSeg s) {params : List Text}
    (hparams : params ≠ [[]]) :
    (parse (render segs params)).params = (params.flatMap (List.splitOn '&')).map param := by
  have hpath : '?' ∉ ['/'].intercalate segs := by
    intro hmem
    rcases mem_intercalate hmem with h | ⟨s, hs, h⟩
    · exact absurd h (by decide)
    · exact (hsegs s hs).2 h
  unfold render parse
  dsimp only
  split_ifs with h
  · rw [cut_of_not_mem hpath, h]
    rfl
  · rw [cut_append hpath, getD_some, ← splitOn_intercalate_eq_flatMap '&' h]
    cases hq : ['&'].intercalate params with
    | nil =>
      rcases intercalate_eq_nil hq with hnil | hnil
      · exact absurd hnil h
      · exact absurd hnil hparams
    | cons ch query => rfl

theorem flatMap_splitOn_eq_self {sep : Char} {xs : List Text} (h : ∀ x ∈ xs, sep ∉ x) :
    xs.flatMap (List.splitOn sep) = xs := by
  induction xs with
  | nil => rfl
  | cons x xs ih =>
    rw [flatMap_cons, splitOn_eq_singleton (h x mem_cons_self),
      ih fun y hy => h y (mem_cons_of_mem _ hy), singleton_append]

/-! ### What a URL says -/

def Param.said (p : Param) : Text × Option Text := (p.k, p.v)

@[ext] structure Reading where
  segs : List Text
  params : List (Text × Option Text)
deriving DecidableEq

def read (u : Text) : Reading :=
  { segs := (parse u).segs.map decode
    params := (parse u).params.map Param.said }

/-- Every segment and every value without the qualifier of `cluster`. -/
def Reading.strip (r : Reading) (cluster : Text) : Reading :=
  { segs := r.segs.map fun s => stripName s cluster
    params := r.params.map fun p => (p.1, p.2.map fun v => stripName v cluster) }

theorem read_render {params : List Text} (hne : segs ≠ []) (hsegs : ∀ s ∈ segs, IsSeg s)
    (hparams : ∀ p ∈ params, '&' ∉ p) (hnil : params ≠ [[]]) :
    read (render segs params) =
      { segs := segs.map decode, params := params.map fun p => (param p).said } := by
  unfold read
  rw [parse_render_segs hne hsegs, parse_render_params hsegs hnil, flatMap_splitOn_eq_self hparams,
    map_map]
  rfl

/-! ### `stripRequest` -/

def keptParam (cluster : Text) (p : Param) : Text := (stripParam cluster false p).getD []

theorem stripParam_eq (cluster : Text) (p : Param) :
    stripParam cluster false p = some (keptParam cluster p) := by
  unfold keptParam stripParam
  cases p.v with
  | none => rfl
  | some v =>
    simp only [Bool.false_eq_true, false_and, and_false, if_false]
    split_ifs <;> rfl

theorem stripRequest_eq (u cluster : Text) :
    stripRequest u cluster =
      render ((parse u).segs.map (stripSeg cluster)) ((parse u).params.map (keptParam cluster)) := by
  have hkept : (parse u).params.filterMap (stripParam cluster false) =
      (parse u).params.map (keptParam cluster) := by
    rw [← filterMap_eq_map]
    exact filterMap_congr fun p _ => stripParam_eq cluster p
  rw [← hkept]
  rfl

theorem isSeg_encode (s : Text) : IsSeg (encodeURIComponent s) :=
  ⟨not_mem_encodeURIComponent (by decide) (by decide) s,
    not_mem_encodeURIComponent (by decide) (by decide) s⟩

theorem isSeg_stripSeg (h : IsSeg s) (cluster : Text) : IsSeg (stripSeg cluster s) := by
  unfold stripSeg
  simp only []
  split_ifs
  · exact h
  · exact isSeg_encode _

theorem decode_stripSeg (cluster s : Text) :
    decode (stripSeg cluster s) = stripName (decode s) cluster := by
  unfold stripSeg
  simp only []
  split_ifs with h
  · exact h.symm
  · exact decode_encode _

theorem said_keptParam {p : Param} (hp : p ∈ (parse u).params) (cluster : Text) :
    (param (keptParam cluster p)).said = (p.k, p.v.map fun v => stripName v cluster) ∧
      '&' ∉ keptParam cluster p ∧ (keptParam cluster p = [] → p.raw = []) := by
  obtain ⟨hraw, hand⟩ := param_raw_eq hp
  unfold keptParam stripParam
  cases hv : p.v with
  | none => exact ⟨by rw [getD_some, hraw, Param.said, hv]; rfl, hand, id⟩
  | some v =>
    simp only [Bool.false_eq_true, false_and, and_false, if_false]
    split_ifs with h
    · exact ⟨by rw [getD_some, hraw, Param.said, hv, map_some, h], hand, id⟩
    · have heq : '=' ∉ encodeURIComponent p.k :=
        not_mem_encodeURIComponent (by decide) (by decide) p.k
      refine ⟨?_, ?_, ?_⟩
      · rw [getD_some, param_append heq, Param.said, decode_encode, decode_encode, map_some]
      · have hk := not_mem_encodeURIComponent (x := '&') (by decide) (by decide) p.k
        have hn := not_mem_encodeURIComponent (x := '&') (by decide) (by decide)
          (stripName v cluster)
        simp [hk, hn]
      · simp

theorem read_stripRequest (u cluster : Text) :
    read (stripRequest u cluster) = (read u).strip cluster := by
  have hsegs : ∀ s ∈ (parse u).segs.map (stripSeg cluster), IsSeg s := by
    intro s hs
    obtain ⟨s, hmem, rfl⟩ := List.mem_map.mp hs
    exact isSeg_stripSeg (isSeg_of_mem_parse hmem) cluster
  have hand : ∀ p ∈ (parse u).params.map (keptParam cluster), '&' ∉ p := by
    intro p hp
    obtain ⟨p, hmem, rfl⟩ := List.mem_map.mp hp
    exact (said_keptParam hmem cluster).2.1
  have hnil : (parse u).params.map (keptParam cluster) ≠ [[]] := by
    intro h
    obtain ⟨p, hone, hp⟩ := map_eq_singleton_iff.mp h
    have hmem : p ∈ (parse u).params := hone ▸ mem_singleton_self p
    exact raws_ne_nil hone ((said_keptParam hmem cluster).2.2 hp)
  have hne : (parse u).segs.map (stripSeg cluster) ≠ [] := by
    simpa using parse_segs_ne_nil u
  rw [stripRequest_eq, read_render hne hsegs hand hnil]
  ext1
  · simp [read, Reading.strip, decode_stripSeg]
  · show List.map _ _ = List.map _ _
    rw [map_map, read, map_map]
    apply map_congr_left
    intro p hp
    exact (said_keptParam hp cluster).1

end IncusCloud.Federation
