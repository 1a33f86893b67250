import IncusCloud.Federation.Proofs.Urls

/-!
# URLs the facade hands out

`qualifyUrl` decodes the names it qualifies and writes them back as they are; `stripRequest` and
`targetOf` read them as URL text again. What a handed-out URL says once it comes back is therefore
what it said before exactly when the names it qualifies survive that: `read_strip_qualifyUrl`.
-/

namespace IncusCloud.Federation

open Lib Option

variable {known segs : List Text} {p : Param} {s u : Text} (c : ClusterName)

def ClusterName.ctx : Ctx := { cluster := c.text, standalone := false }

/-! ### What qualifying writes -/

theorem q_ctx (s : Text) : q s c.ctx = if s = [] then s else qualify s c.text := rfl

theorem member_ctx (s : Text) : member s c.ctx = q s c.ctx := by
  rw [member, if_neg]
  rintro ⟨h, -⟩
  cases h

/-- Segment `j` is the name of the URL's global entity. -/
def NamedAt (segs : List Text) (j : ℕ) (s : Text) : Prop := nameAt segs = some j ∧ s ≠ []

instance (segs : List Text) (j : ℕ) (s : Text) : Decidable (NamedAt segs j s) :=
  inferInstanceAs (Decidable (_ ∧ _))

def qualifySeg (segs : List Text) (j : ℕ) (s : Text) : Text :=
  if NamedAt segs j s then qualify (decode s) c.text else s

theorem getElem?_qualifySegs (segs : List Text) (j : ℕ) :
    (qualifySegs c.ctx segs)[j]? = segs[j]?.map (qualifySeg c segs j) := by
  unfold qualifySegs
  cases hname : nameAt segs with
  | none =>
    have hid : qualifySeg c segs j = id := by
      funext s
      rw [qualifySeg, if_neg fun h => by rw [NamedAt, hname] at h; cases h.1]
      rfl
    rw [hid, Option.map_id]
    rfl
  | some i =>
    rw [List.getElem?_modify]
    cases hs : segs[j]? with
    | none => simp
    | some s =>
      by_cases hij : i = j
      · subst hij
        by_cases hnil : s = []
        · have hnot : ¬ NamedAt segs i [] := fun h => h.2 rfl
          simp [qualifySeg, hnot, hnil]
        · have hdecode : decode s ≠ [] := fun h => hnil (decode_eq_nil.mp h)
          have hat : NamedAt segs i s := ⟨hname, hnil⟩
          simp [qualifySeg, hat, hnil, q_ctx, hdecode]
      · have hnot : ¬ NamedAt segs j s := by
          rintro ⟨h, -⟩
          rw [hname] at h
          exact hij (some.inj h)
        simp [qualifySeg, hnot, hij]

theorem length_qualifySegs (c : Ctx) (segs : List Text) :
    (qualifySegs c segs).length = segs.length := by
  unfold qualifySegs
  split
  · rfl
  · exact List.length_modify _ _ _

theorem three_le_of_nameAt {i : ℕ} (h : nameAt segs = some i) : 3 ≤ i := by
  have htable : ∀ (m : OrdMap String ℕ), (∀ e ∈ m, 3 ≤ e.2) → ∀ k, m.get k = some i → 3 ≤ i := by
    intro m hm k hk
    obtain ⟨e, he, rfl⟩ := map_eq_some_iff.mp hk
    exact hm e (List.mem_of_find?_eq_some he)
  unfold nameAt at h
  simp only [] at h
  split_ifs at h
  · exact htable _ (by decide) _ h
  · exact htable _ (by decide) _ h

theorem projectScoped_qualifySegs (segs : List Text) :
    projectScoped (qualifySegs c.ctx segs) = projectScoped segs := by
  have hkind : (qualifySegs c.ctx segs).getD 2 [] = segs.getD 2 [] := by
    have hid : qualifySeg c segs 2 = id := by
      funext s
      rw [qualifySeg, if_neg]
      · rfl
      · rintro ⟨h, -⟩
        exact absurd (three_le_of_nameAt h) (by decide)
    rw [List.getD_eq_getElem?_getD, getElem?_qualifySegs, hid, Option.map_id,
      List.getD_eq_getElem?_getD]
    rfl
  unfold projectScoped
  rw [hkind, length_qualifySegs]

/-- The URL's entity lives in a project that the URL does not name. -/
def namesNone (u : Text) : Bool :=
  !(parse u).params.any isProject && projectScoped (parse u).segs

/-- The `project` that is written where none is named. -/
def defaultParam (u : Text) : List Text :=
  if namesNone u then ["project=".toList ++ qualify "default".toList c.text] else []

theorem qualifyUrl_eq (u : Text) :
    qualifyUrl u c.ctx =
      render (qualifySegs c.ctx (parse u).segs)
        ((parse u).params.map (qualifyParam c.ctx) ++ defaultParam c u) := by
  show render _ (qualifyParams c.ctx (qualifySegs c.ctx (parse u).segs) (parse u).params) = _
  unfold qualifyParams defaultParam namesNone
  rw [projectScoped_qualifySegs]
  simp only []
  split_ifs
  · rfl
  · rw [List.append_nil]
    rfl

def Param.names (p : Param) : Prop := p.k = "project".toList ∨ p.k = "target".toList

instance (p : Param) : Decidable p.names := inferInstanceAs (Decidable (_ ∨ _))

theorem qualifyParam_eq (p : Param) :
    qualifyParam c.ctx p =
      match p.v with
      | none => p.raw
      | some v => if p.names then p.k ++ '=' :: q v c.ctx else p.raw := by
  unfold qualifyParam
  cases p.v with
  | none => rfl
  | some v =>
    simp only [member_ctx]
    by_cases hproject : p.k = "project".toList
    · have hnames : p.names := .inl hproject
      rw [if_pos hproject, if_pos hnames, hproject]
      rfl
    · by_cases htarget : p.k = "target".toList
      · have hnames : p.names := .inr htarget
        rw [if_neg hproject, if_pos htarget, if_pos hnames, htarget]
        rfl
      · have hnames : ¬ p.names := not_or.mpr ⟨hproject, htarget⟩
        rw [if_neg hproject, if_neg htarget, if_neg hnames]

theorem names_key (h : p.names) : '=' ∉ p.k ∧ '&' ∉ p.k ∧ decode p.k = p.k := by
  rcases h with h | h <;> rw [h]
  all_goals exact ⟨by decide, by decide, decode_plain (by decide) (by decide)⟩

theorem decode_q (v : Text) : decode (q v c.ctx) = q (decode v) c.ctx := by
  rw [q_ctx, q_ctx]
  by_cases h : v = []
  · rw [if_pos h, h]
    rfl
  · rw [if_neg h, if_neg fun hd => h (decode_eq_nil.mp hd), decode_qualify]

theorem stripName_q (v : Text) : stripName (q v c.ctx) c.text = v := by
  rw [q_ctx]
  split_ifs with h
  · rw [h, stripName_nil]
  · exact stripName_qualify v c.text

theorem said_qualifyParam (hp : p ∈ (parse u).params) :
    (param (qualifyParam c.ctx p)).said =
      (p.k, p.v.map fun v => if p.names then q (decode v) c.ctx else v) := by
  obtain ⟨hraw, -⟩ := param_raw_eq hp
  rw [qualifyParam_eq]
  cases hv : p.v with
  | none => rw [hraw, Param.said, hv, map_none]
  | some v =>
    simp only [map_some]
    split_ifs with h
    · obtain ⟨heq, -, hkey⟩ := names_key h
      rw [param_append heq, Param.said, hkey, decode_q]
    · rw [hraw, Param.said, hv]

theorem amp_mem_qualifyParam (hp : p ∈ (parse u).params) :
    '&' ∉ qualifyParam c.ctx p ↔ ∀ v, p.v = some v → p.names → '&' ∉ v := by
  obtain ⟨-, hraw⟩ := param_raw_eq hp
  rw [qualifyParam_eq]
  cases hv : p.v with
  | none => simp [hraw]
  | some v =>
    simp only [some.injEq, forall_eq']
    split_ifs with h
    · obtain ⟨-, hkey, -⟩ := names_key h
      have hq : '&' ∈ q v c.ctx ↔ '&' ∈ v := by
        rw [q_ctx]
        split_ifs
        · rfl
        · exact mem_qualify c (by decide) (by decide) v
      simp [hkey, hq, h]
    · simp [hraw, h]

theorem qualifyParam_ne_nil (h : p.raw ≠ []) : qualifyParam c.ctx p ≠ [] := by
  rw [qualifyParam_eq]
  cases p.v with
  | none => exact h
  | some v =>
    simp only []
    split_ifs
    · simp
    · exact h

theorem qualifyParams_ne_nil (u : Text) :
    (parse u).params.map (qualifyParam c.ctx) ++ defaultParam c u ≠ [[]] := by
  intro h
  unfold defaultParam at h
  split_ifs at h
  · have hlast := congrArg List.getLast? h
    rw [List.getLast?_concat] at hlast
    cases hlast
  · rw [List.append_nil] at h
    obtain ⟨p, hone, hp⟩ := List.map_eq_singleton_iff.mp h
    exact qualifyParam_ne_nil c (raws_ne_nil hone) hp

theorem amp_mem_defaultParam (u : Text) : ∀ p ∈ defaultParam c u, '&' ∉ p := by
  intro p hp
  unfold defaultParam at hp
  split_ifs at hp
  · rw [List.mem_singleton.mp hp, List.mem_append, mem_qualify c (by decide) (by decide)]
    decide
  · cases hp

/-! ### Names that survive -/

/-- What a segment needs to come back: a qualified name is written as it is and read as URL text,
and every other segment must not end like one. -/
def SegReturns (segs : List Text) (j : ℕ) (s : Text) : Prop :=
  if NamedAt segs j s then IsSeg (decode s) ∧ decode (decode s) = decode s
  else ¬ '@' :: c.text <:+ decode s

def ParamReturns (p : Param) : Prop :=
  ∀ v, p.v = some v →
    if p.names then v ≠ [] → '&' ∉ v ∧ decode v = v else ¬ '@' :: c.text <:+ v

def UrlReturns (u : Text) : Prop :=
  (∀ j s, (parse u).segs[j]? = some s → SegReturns c (parse u).segs j s) ∧
    ∀ p ∈ (parse u).params, ParamReturns c p

def owed (u : Text) : Reading :=
  { segs := (read u).segs
    params := (read u).params ++
      if namesNone u then [("project".toList, some "default".toList)] else [] }

theorem isSeg_qualifySeg {j : ℕ} (hs : IsSeg s) :
    IsSeg (qualifySeg c segs j s) ↔ (NamedAt segs j s → IsSeg (decode s)) := by
  unfold qualifySeg
  split_ifs with h
  · have hslash := mem_qualify c (x := '/') (by decide) (by decide) (decode s)
    have hquery := mem_qualify c (x := '?') (by decide) (by decide) (decode s)
    simp only [IsSeg, hslash, hquery, h, forall_const]
  · simp [hs, h]

theorem strip_decode_qualifySeg (segs : List Text) (j : ℕ) (s : Text) :
    stripName (decode (qualifySeg c segs j s)) c.text = decode s ↔
      if NamedAt segs j s then decode (decode s) = decode s else ¬ '@' :: c.text <:+ decode s := by
  unfold qualifySeg
  split_ifs with h
  · rw [decode_qualify, stripName_qualify]
  · exact stripName_eq_self

theorem strip_said_qualifyParam
    (hp : p ∈ (parse u).params) :
    ((param (qualifyParam c.ctx p)).said.1,
        (param (qualifyParam c.ctx p)).said.2.map fun v => stripName v c.text) = p.said ↔
      ∀ v, p.v = some v → if p.names then decode v = v else ¬ '@' :: c.text <:+ v := by
  rw [said_qualifyParam c hp]
  cases hv : p.v with
  | none => simp [Param.said, hv]
  | some v =>
    simp only [map_some, some.injEq, forall_eq', Param.said, hv, Prod.mk.injEq, true_and]
    split_ifs with h
    · rw [stripName_q]
    · exact stripName_eq_self

/-! ### A name that does not survive -/

theorem render_cons (h : segs ≠ []) (s : Text) (params : List Text) :
    render (s :: segs) params = s ++ '/' :: render segs params := by
  cases segs with
  | nil => exact absurd rfl h
  | cons s' segs => exact render_cons_cons s s' segs params

theorem parse_render_getElem {pre : List Text} (hpre : ∀ s ∈ pre, IsSeg s) (y : Text)
    (post params : List Text) :
    ∃ rest, (parse (render (pre ++ y :: post) params)).segs[pre.length]? =
      some (cut '/' (cut '?' (y ++ rest)).1).1 := by
  induction pre with
  | nil =>
    have hrest : ∃ rest, render (y :: post) params = y ++ rest := by
      cases post with
      | nil =>
        unfold render
        split_ifs
        · exact ⟨[], by simp⟩
        · exact ⟨_, by rw [List.intercalate_singleton]⟩
      | cons y' post => exact ⟨_, render_cons_cons y y' post params⟩
    obtain ⟨rest, hrest⟩ := hrest
    refine ⟨rest, ?_⟩
    rw [List.nil_append, hrest, parse_segs]
    exact head_splitOn '/' _
  | cons s pre ih =>
    obtain ⟨rest, hrest⟩ := ih fun s hs => hpre s (List.mem_cons_of_mem _ hs)
    refine ⟨rest, ?_⟩
    have hne : pre ++ y :: post ≠ [] := by simp
    rw [List.cons_append, render_cons hne, parse_segs_cons (hpre s List.mem_cons_self),
      List.length_cons, List.getElem?_cons_succ, hrest]

theorem length_cut_lt {n : Text} (h : ¬ IsSeg n) (rest : Text) :
    (cut '/' (cut '?' (n ++ rest)).1).1.length < n.length := by
  have hle : ∀ (sep : Char) (l : Text), (cut sep l).1.length ≤ l.length :=
    fun sep l => (List.takeWhile_prefix _).length_le
  by_cases hquery : '?' ∈ n
  · obtain ⟨x, y, rfl, hx⟩ := List.eq_append_cons_of_mem hquery
    rw [List.append_assoc, List.cons_append, cut_append hx]
    have := hle '/' x
    rw [List.length_append, List.length_cons]
    show (cut '/' x).1.length < _
    omega
  · have hslash : '/' ∈ n := by
      by_contra hslash
      exact h ⟨hslash, hquery⟩
    obtain ⟨x, y, rfl, hx⟩ := List.eq_append_cons_of_mem hslash
    have hq : '?' ∉ x := fun hmem => hquery (List.mem_append_left _ hmem)
    have hcut : ∃ z, (cut '?' (x ++ '/' :: y ++ rest)).1 = x ++ '/' :: z := by
      rw [List.append_assoc, List.cons_append]
      rcases cut_cases '?' (y ++ rest) with ⟨hno, -⟩ | ⟨a, b, ha, hab, -⟩
      · exact ⟨y ++ rest, by rw [cut_of_not_mem (by simp [hq] at hno ⊢; exact hno)]⟩
      · have happ : x ++ '/' :: (y ++ rest) = (x ++ '/' :: a) ++ '?' :: b := by simp [hab]
        exact ⟨a, by rw [happ, cut_append (by simp [hq, ha])]⟩
    obtain ⟨z, hz⟩ := hcut
    rw [hz, cut_append hx, List.length_append, List.length_cons]
    show x.length < _
    omega

theorem isSeg_of_segs_return (u : Text)
    (h : ((read (qualifyUrl u c.ctx)).strip c.text).segs = (read u).segs) :
    ∀ s ∈ qualifySegs c.ctx (parse u).segs, IsSeg s := by
  intro t ht
  obtain ⟨j, hj⟩ := List.mem_iff_getElem?.mp ht
  have hqj := hj
  rw [getElem?_qualifySegs] at hj
  obtain ⟨s, hs, rfl⟩ := map_eq_some_iff.mp hj
  have hseg : IsSeg s := isSeg_of_mem_parse (List.mem_of_getElem? hs)
  rw [isSeg_qualifySeg c hseg]
  intro hat
  by_contra hbad
  -- The segments before the name are the URL's own.
  have hpre : ∀ x ∈ (qualifySegs c.ctx (parse u).segs).take j, IsSeg x := by
    intro x hx
    obtain ⟨k, hk⟩ := List.mem_iff_getElem?.mp hx
    rw [List.getElem?_take] at hk
    split_ifs at hk with hkj
    rw [getElem?_qualifySegs] at hk
    obtain ⟨s', hs', rfl⟩ := map_eq_some_iff.mp hk
    rw [isSeg_qualifySeg c (isSeg_of_mem_parse (List.mem_of_getElem? hs'))]
    rintro ⟨hname, -⟩
    rw [hat.1] at hname
    exact absurd (some.inj hname) (Nat.ne_of_gt hkj)
  have hlt : j < (qualifySegs c.ctx (parse u).segs).length := (List.getElem?_eq_some_iff.mp hqj).1
  have hsplit : qualifySegs c.ctx (parse u).segs =
      (qualifySegs c.ctx (parse u).segs).take j ++
        qualifySeg c (parse u).segs j s :: (qualifySegs c.ctx (parse u).segs).drop (j + 1) := by
    have hget := (List.getElem?_eq_some_iff.mp hqj).2
    rw [← hget, List.getElem_cons_drop, List.take_append_drop]
  obtain ⟨rest, hrest⟩ := parse_render_getElem hpre (qualifySeg c (parse u).segs j s)
    ((qualifySegs c.ctx (parse u).segs).drop (j + 1))
    ((parse u).params.map (qualifyParam c.ctx) ++ defaultParam c u)
  rw [← hsplit, ← qualifyUrl_eq, List.length_take_of_le (Nat.le_of_lt hlt), qualifySeg, if_pos hat,
    qualify, List.append_assoc] at hrest
  -- At the name's place stands something shorter than the name.
  have hplace := congrArg (fun l => l[j]?) h
  simp only [Reading.strip, read, List.getElem?_map, hrest, hs, map_some, some.injEq] at hplace
  have hshort := length_cut_lt hbad (('@' :: c.text) ++ rest)
  have hlen := congrArg List.length hplace
  have hstrip := length_stripName_le
    (decode (cut '/' (cut '?' (decode s ++ ('@' :: c.text ++ rest))).1).1) c.text
  have hdecode := length_decode_le (cut '/' (cut '?' (decode s ++ ('@' :: c.text ++ rest))).1).1
  omega

/-! ### What comes back -/

theorem read_qualifyUrl
    (hsegs : ∀ s ∈ qualifySegs c.ctx (parse u).segs, IsSeg s)
    (hparams : ∀ p ∈ (parse u).params, '&' ∉ qualifyParam c.ctx p) :
    read (qualifyUrl u c.ctx) =
      { segs := (qualifySegs c.ctx (parse u).segs).map decode
        params := (parse u).params.map (fun p => (param (qualifyParam c.ctx p)).said) ++
          if namesNone u then [("project".toList, some (qualify "default".toList c.text))] else [] } := by
  have hne : qualifySegs c.ctx (parse u).segs ≠ [] := by
    intro h
    have hlen := length_qualifySegs c.ctx (parse u).segs
    rw [h] at hlen
    exact parse_segs_ne_nil u (List.length_eq_zero_iff.mp hlen.symm)
  have hamp : ∀ p ∈ (parse u).params.map (qualifyParam c.ctx) ++ defaultParam c u, '&' ∉ p := by
    intro p hp
    rcases List.mem_append.mp hp with hp | hp
    · obtain ⟨p, hmem, rfl⟩ := List.mem_map.mp hp
      exact hparams p hmem
    · exact amp_mem_defaultParam c u p hp
  have hdefault : (defaultParam c u).map (fun p => (param p).said) =
      if namesNone u then [("project".toList, some (qualify "default".toList c.text))] else [] := by
    unfold defaultParam
    split_ifs
    · have hparam : param ("project=".toList ++ qualify "default".toList c.text) =
          param ("project".toList ++ '=' :: qualify "default".toList c.text) := rfl
      have hkey : decode "project".toList = "project".toList := decode_plain (by decide) (by decide)
      have hvalue : decode "default".toList = "default".toList := decode_plain (by decide) (by decide)
      rw [List.map_singleton, hparam, param_append (by decide), Param.said, decode_qualify, hkey,
        hvalue]
    · rfl
  rw [qualifyUrl_eq, read_render hne hsegs hamp (qualifyParams_ne_nil c u), List.map_append,
    List.map_map, hdefault]
  rfl

theorem amp_of_params_return
    (hsegs : ∀ s ∈ qualifySegs c.ctx (parse u).segs, IsSeg s)
    (h : ((read (qualifyUrl u c.ctx)).strip c.text).params = (owed u).params) :
    ∀ p ∈ (parse u).params, '&' ∉ qualifyParam c.ctx p := by
  have hlen := congrArg List.length h
  have howed : (owed u).params.length =
      ((parse u).params.map (qualifyParam c.ctx) ++ defaultParam c u).length := by
    unfold owed defaultParam read
    split_ifs <;> simp
  rw [howed] at hlen
  simp only [Reading.strip, List.length_map, read] at hlen
  rw [qualifyUrl_eq, parse_render_params hsegs (qualifyParams_ne_nil c u), List.length_map] at hlen
  have hclean := not_mem_of_length_splitOn (Nat.le_of_eq hlen)
  exact fun p hp => hclean _ (List.mem_append_left _ (List.mem_map_of_mem hp))

theorem segs_return_iff (u : Text) :
    ((qualifySegs c.ctx (parse u).segs).map decode).map (fun s => stripName s c.text) =
        (parse u).segs.map decode ↔
      ∀ j s, (parse u).segs[j]? = some s →
        if NamedAt (parse u).segs j s then decode (decode s) = decode s
        else ¬ '@' :: c.text <:+ decode s := by
  rw [List.ext_getElem?_iff]
  simp only [List.getElem?_map, getElem?_qualifySegs, Option.map_map]
  constructor
  · intro h j s hs
    have hj := h j
    rw [hs, map_some, map_some, some.injEq] at hj
    exact (strip_decode_qualifySeg c _ j s).mp hj
  · intro h j
    cases hs : (parse u).segs[j]? with
    | none => rfl
    | some s =>
      have hj := (strip_decode_qualifySeg c _ j s).mpr (h j s hs)
      rw [map_some, map_some, some.injEq]
      exact hj

theorem params_return_iff (u : Text) :
    ((parse u).params.map (fun p => (param (qualifyParam c.ctx p)).said) ++
          if namesNone u then [("project".toList, some (qualify "default".toList c.text))]
          else []).map (fun p => (p.1, p.2.map fun v => stripName v c.text)) = (owed u).params ↔
      ∀ p ∈ (parse u).params, ∀ v, p.v = some v →
        if p.names then decode v = v else ¬ '@' :: c.text <:+ v := by
  have hdefault : (if namesNone u then
        [("project".toList, some (qualify "default".toList c.text))] else []).map
        (fun p : Text × Option Text => (p.1, p.2.map fun v => stripName v c.text)) =
      if namesNone u then [("project".toList, some "default".toList)] else [] := by
    split_ifs
    · rw [List.map_singleton, map_some, stripName_qualify]
    · rfl
  rw [List.map_append, hdefault, List.map_map]
  show _ ++ _ = (parse u).params.map Param.said ++ _ ↔ _
  rw [List.append_cancel_right_eq, List.map_inj_left]
  exact forall₂_congr fun p hp => strip_said_qualifyParam c hp

theorem UrlReturns.value {c : ClusterName} (h : UrlReturns c u) :
    ∀ p ∈ (parse u).params, ∀ v, p.v = some v → p.names → '&' ∉ v ∧ decode v = v := by
  intro p hmem v hv hnames
  have hback := h.2 p hmem v hv
  rw [if_pos hnames] at hback
  by_cases hnil : v = []
  · rw [hnil]
    exact ⟨by simp, rfl⟩
  · exact hback hnil

theorem UrlReturns.read_eq {c : ClusterName} (h : UrlReturns c u) :
    read (qualifyUrl u c.ctx) =
      { segs := (qualifySegs c.ctx (parse u).segs).map decode
        params := (parse u).params.map (fun p => (param (qualifyParam c.ctx p)).said) ++
          if namesNone u then [("project".toList, some (qualify "default".toList c.text))] else [] } := by
  apply read_qualifyUrl
  · intro t ht
    obtain ⟨j, hj⟩ := List.mem_iff_getElem?.mp ht
    rw [getElem?_qualifySegs] at hj
    obtain ⟨s, hget, rfl⟩ := map_eq_some_iff.mp hj
    rw [isSeg_qualifySeg c (isSeg_of_mem_parse (List.mem_of_getElem? hget))]
    intro hat
    have hback := h.1 j s hget
    rw [SegReturns, if_pos hat] at hback
    exact hback.1
  · intro p hmem
    exact (amp_mem_qualifyParam c hmem).mpr fun v hv hnames => (h.value p hmem v hv hnames).1

/-- A URL that the facade hands out says, once its qualifiers are stripped, what it said, exactly
when each of its segments and parameters survives. -/
theorem read_strip_qualifyUrl (u : Text) :
    read (stripRequest (qualifyUrl u c.ctx) c.text) = owed u ↔ UrlReturns c u := by
  rw [read_stripRequest]
  constructor
  · intro h
    have hread : ((read (qualifyUrl u c.ctx)).strip c.text).segs = (owed u).segs :=
      congrArg Reading.segs h
    have hsegs := isSeg_of_segs_return c u hread
    have hamp := amp_of_params_return c hsegs (congrArg Reading.params h)
    rw [read_qualifyUrl c hsegs hamp] at h
    have hs := (segs_return_iff c u).mp (congrArg Reading.segs h)
    have hp := (params_return_iff c u).mp (congrArg Reading.params h)
    constructor
    · intro j s hj
      have hmem : qualifySeg c (parse u).segs j s ∈ qualifySegs c.ctx (parse u).segs := by
        apply List.mem_of_getElem? (i := j)
        rw [getElem?_qualifySegs, hj, map_some]
      have hseg := (isSeg_qualifySeg c (isSeg_of_mem_parse (List.mem_of_getElem? hj))).mp
        (hsegs _ hmem)
      have hback := hs j s hj
      unfold SegReturns
      split_ifs at hback ⊢ with hat
      · exact ⟨hseg hat, hback⟩
      · exact hback
    · intro p hmem v hv
      have hback := hp p hmem v hv
      have hclean := (amp_mem_qualifyParam c hmem).mp (hamp p hmem) v hv
      split_ifs at hback ⊢ with hnames
      · exact fun _ => ⟨hclean hnames, hback⟩
      · exact hback
  · rintro ⟨hs, hp⟩
    have hvalue := UrlReturns.value ⟨hs, hp⟩
    rw [UrlReturns.read_eq ⟨hs, hp⟩]
    ext1
    · apply (segs_return_iff c u).mpr
      intro j s hj
      have hback := hs j s hj
      unfold SegReturns at hback
      split_ifs at hback ⊢ with hat
      · exact hback.2
      · exact hback
    · apply (params_return_iff c u).mpr
      intro p hmem v hv
      have hback := hp p hmem v hv
      split_ifs at hback ⊢ with hnames
      · exact (hvalue p hmem v hv hnames).2
      · exact hback

/-! ### Which cluster it is for -/

def paramCluster (clusters : List Text) (k : Text) : Option Text → Option Text
  | none => none
  | some v =>
    if (k = "project".toList ∨ k = "target".toList) ∧ v ≠ [] then (split v clusters).2 else none

def Reading.named (r : Reading) (clusters : List Text) : List (Option Text) :=
  r.segs.map (fun s => (split s clusters).2) ++ r.params.map fun p => paramCluster clusters p.1 p.2

theorem clustersIn_eq (u : Text) (clusters : List Text) :
    clustersIn u clusters = ((read u).named clusters).foldl addFound [] := by
  show (parse u).params.foldl _ ((parse u).segs.foldl _ []) = _
  rw [Reading.named, List.foldl_append, read, List.map_map, List.map_map, List.foldl_map,
    List.foldl_map]
  congr 1
  funext found p
  show _ = addFound found (paramCluster clusters p.k p.v)
  cases p.v with
  | none => rfl
  | some v =>
    simp only [paramCluster]
    by_cases h : (p.k = "project".toList ∨ p.k = "target".toList) ∧ v ≠ []
    · rw [if_pos h, if_pos h]
    · rw [if_neg h, if_neg h]
      rfl

theorem foldl_addFound {c : Text} (hc : c ≠ []) {l : List (Option Text)}
    (h : ∀ o ∈ l, o = none ∨ o = some c) :
    l.foldl addFound [] = if some c ∈ l then [c] else [] := by
  have hstay : ∀ l : List (Option Text), (∀ o ∈ l, o = none ∨ o = some c) →
      l.foldl addFound [c] = [c] := by
    intro l hl
    induction l with
    | nil => rfl
    | cons o l ih =>
      have ho : addFound [c] o = [c] := by
        rcases hl o List.mem_cons_self with rfl | rfl
        · rfl
        · simp [addFound]
      rw [List.foldl_cons, ho, ih fun o ho => hl o (List.mem_cons_of_mem _ ho)]
  induction l with
  | nil => rfl
  | cons o l ih =>
    have hl := fun o ho => h o (List.mem_cons_of_mem _ ho)
    rcases h o List.mem_cons_self with rfl | rfl
    · have hnone : addFound [] none = [] := rfl
      rw [List.foldl_cons, hnone, ih hl]
      simp
    · have hsome : addFound [] (some c) = [c] := by simp [addFound, hc]
      rw [List.foldl_cons, hsome, hstay l hl]
      simp

theorem split_append {k : Text} (hk : '@' ∉ k) (n : Text) (clusters : List Text) :
    split (n ++ '@' :: k) clusters =
      if n ≠ [] ∧ k ∈ clusters then (n, some k) else (n ++ '@' :: k, none) := by
  have hall : ∀ ch ∈ k.reverse, decide (ch ≠ '@') = true := by
    intro ch hch
    have hne : ch ≠ '@' := fun h => hk (h ▸ List.mem_reverse.mp hch)
    simpa using hne
  have hrev : (n ++ '@' :: k).reverse = k.reverse ++ '@' :: n.reverse := by simp
  unfold split
  rw [hrev, List.takeWhile_append_of_pos hall, List.dropWhile_append_of_pos hall]
  simp

theorem split_of_not_mem (h : '@' ∉ s) (clusters : List Text) : split s clusters = (s, none) := by
  have hnil : s.reverse.dropWhile (· ≠ '@') = [] := by
    apply List.dropWhile_eq_nil_iff.mpr
    intro ch hch
    have hne : ch ≠ '@' := fun heq => h (heq ▸ List.mem_reverse.mp hch)
    simpa using hne
  unfold split
  rw [hnil]
  simp

theorem split_qualify {n : Text} (hn : n ≠ []) (c : ClusterName) {clusters : List Text}
    (hc : c.text ∈ clusters) : (split (qualify n c.text) clusters).2 = some c.text := by
  rw [qualify, split_append (c.not_mem (by decide)), if_pos ⟨hn, hc⟩]

theorem split_eq_none {clusters : List Text}
    (h : ∀ k ∈ clusters, ¬ '@' :: k <:+ s) : (split s clusters).2 = none := by
  rcases cut_cases '@' s.reverse with ⟨hno, -⟩ | ⟨x, y, hx, hs, -⟩
  · rw [split_of_not_mem fun hmem => hno (List.mem_reverse.mpr hmem)]
  · have hback : s = y.reverse ++ '@' :: x.reverse := by
      rw [← List.reverse_reverse s, hs]
      simp
    have hx' : '@' ∉ x.reverse := fun hmem => hx (List.mem_reverse.mp hmem)
    rw [hback, split_append hx', if_neg]
    rintro ⟨-, hmem⟩
    exact h _ hmem ⟨y.reverse, hback.symm⟩

def Unqualified (known : List Text) (u : Text) : Prop :=
  (∀ s ∈ (read u).segs, ∀ k ∈ known, ¬ '@' :: k <:+ s) ∧
    ∀ p ∈ (read u).params, ∀ v ∈ p.2, ∀ k ∈ known, ¬ '@' :: k <:+ v

instance (known : List Text) (u : Text) : Decidable (Unqualified known u) :=
  inferInstanceAs (Decidable (_ ∧ _))

/-- Something is there to qualify: a global name, a `project` or `target`, or the project that is
written where none is named. -/
def Named (u : Text) : Prop :=
  (∃ j s, (parse u).segs[j]? = some s ∧ NamedAt (parse u).segs j s) ∨
    (∃ p ∈ (parse u).params, p.names ∧ ∃ v, p.v = some v ∧ v ≠ []) ∨ namesNone u

theorem split_qualifySeg (hc : c.text ∈ known)
    (hun : Unqualified known u) {j : ℕ} (hs : (parse u).segs[j]? = some s) :
    (split (decode (qualifySeg c (parse u).segs j s)) known).2 =
      if NamedAt (parse u).segs j s then some c.text else none := by
  unfold qualifySeg
  split_ifs with hat
  · have hne : decode (decode s) ≠ [] := fun h => hat.2 (decode_eq_nil.mp (decode_eq_nil.mp h))
    rw [decode_qualify, split_qualify hne c hc]
  · exact split_eq_none (hun.1 _ (List.mem_map_of_mem (List.mem_of_getElem? hs)))

theorem paramCluster_qualifyParam (hc : c.text ∈ known) (hp : p ∈ (parse u).params) :
    paramCluster known (param (qualifyParam c.ctx p)).said.1 (param (qualifyParam c.ctx p)).said.2 =
      if p.names ∧ ∃ v, p.v = some v ∧ v ≠ [] then some c.text else none := by
  rw [said_qualifyParam c hp]
  cases hv : p.v with
  | none => simp [paramCluster]
  | some v =>
    rw [map_some, paramCluster]
    by_cases hnames : p.names
    · by_cases hnil : v = []
      · have hq : q (decode v) c.ctx = [] := by rw [hnil]; rfl
        rw [if_pos hnames, hq]
        simp [hnil]
      · have hdecode : decode v ≠ [] := fun h => hnil (decode_eq_nil.mp h)
        have hq : q (decode v) c.ctx = qualify (decode v) c.text := by rw [q_ctx, if_neg hdecode]
        have hqne : qualify (decode v) c.text ≠ [] := by simp [qualify]
        rw [if_pos hnames, hq, if_pos ⟨hnames, hqne⟩, split_qualify hdecode c hc,
          if_pos ⟨hnames, v, rfl, hnil⟩]
    · rw [if_neg fun h => hnames h.1, if_neg fun h => hnames h.1]

theorem mem_named_qualifyUrl (hc : c.text ∈ known)
    (hun : Unqualified known u) (hret : UrlReturns c u) {o : Option Text} :
    o ∈ (read (qualifyUrl u c.ctx)).named known ↔
      (∃ j s, (parse u).segs[j]? = some s ∧
        o = if NamedAt (parse u).segs j s then some c.text else none) ∨
      (∃ p ∈ (parse u).params,
        o = if p.names ∧ ∃ v, p.v = some v ∧ v ≠ [] then some c.text else none) ∨
      (namesNone u ∧ o = some c.text) := by
  have hdefault : (if namesNone u then
        [("project".toList, some (qualify "default".toList c.text))] else []).map
        (fun p : Text × Option Text => paramCluster known p.1 p.2) =
      if namesNone u then [some c.text] else [] := by
    split_ifs
    · have hne : "default".toList ≠ [] := by decide
      have hqne : qualify "default".toList c.text ≠ [] := by simp [qualify]
      rw [List.map_singleton, paramCluster, if_pos ⟨.inl rfl, hqne⟩, split_qualify hne c hc]
    · rfl
  rw [hret.read_eq, Reading.named, List.mem_append, List.map_append, List.mem_append, hdefault,
    List.map_map, List.map_map]
  refine or_congr ?_ (or_congr ?_ ?_)
  · constructor
    · intro h
      obtain ⟨t, ht, rfl⟩ := List.mem_map.mp h
      obtain ⟨j, hj⟩ := List.mem_iff_getElem?.mp ht
      rw [getElem?_qualifySegs] at hj
      obtain ⟨s, hs, rfl⟩ := map_eq_some_iff.mp hj
      exact ⟨j, s, hs, split_qualifySeg c hc hun hs⟩
    · rintro ⟨j, s, hs, rfl⟩
      rw [← split_qualifySeg c hc hun hs]
      apply List.mem_map_of_mem
        (f := (fun s => (split s known).2) ∘ decode) (a := qualifySeg c (parse u).segs j s)
      apply List.mem_of_getElem? (i := j)
      rw [getElem?_qualifySegs, hs, map_some]
  · rw [List.mem_map]
    refine exists_congr fun p => and_congr_right fun hp => ?_
    rw [Function.comp, paramCluster_qualifyParam c hc hp]
    exact eq_comm
  · by_cases h : namesNone u = true
    · rw [if_pos h, List.mem_singleton]
      simp [h]
    · rw [if_neg h]
      simp [h]

/-- A handed-out URL that comes back is for the cluster that gave it, exactly when there was
something to qualify. -/
theorem targetOf_qualifyUrl (hc : c.text ∈ known)
    (hun : Unqualified known u) (hret : UrlReturns c u) :
    targetOf (qualifyUrl u c.ctx) none known = .one c.text ↔ Named u := by
  have hnamed : some c.text ∈ (read (qualifyUrl u c.ctx)).named known ↔ Named u := by
    rw [mem_named_qualifyUrl c hc hun hret, Named]
    refine or_congr ?_ (or_congr ?_ ?_)
    · refine exists_congr fun j => exists_congr fun s => and_congr_right fun _ => ?_
      split_ifs with h <;> simp [h]
    · refine exists_congr fun p => and_congr_right fun _ => ?_
      split_ifs with h <;> simp [h]
    · simp
  have hall : ∀ o ∈ (read (qualifyUrl u c.ctx)).named known, o = none ∨ o = some c.text := by
    intro o ho
    rcases (mem_named_qualifyUrl c hc hun hret).mp ho with ⟨j, s, -, rfl⟩ | ⟨p, -, rfl⟩ | ⟨-, rfl⟩
    · split_ifs <;> simp
    · split_ifs <;> simp
    · exact .inr rfl
  have hfound := foldl_addFound c.ne_nil hall
  rw [← clustersIn_eq] at hfound
  rw [← hnamed]
  by_cases h : some c.text ∈ (read (qualifyUrl u c.ctx)).named known
  · rw [if_pos h] at hfound
    have htarget : targetOf (qualifyUrl u c.ctx) none known = .one c.text := by
      rw [targetOf, hfound]
    exact iff_of_true htarget h
  · rw [if_neg h] at hfound
    have htarget : targetOf (qualifyUrl u c.ctx) none known = .all := by
      rw [targetOf, hfound]
      rfl
    rw [htarget]
    exact iff_of_false (by simp) h

/-! ### The way back -/

/-- A URL that the facade hands out leads back to the object it names: to its cluster, under the
same decoded segments and parameters. -/
def LeadsBack (known : List Text) (u : Text) : Prop :=
  targetOf (qualifyUrl u c.ctx) none known = .one c.text ∧
    read (stripRequest (qualifyUrl u c.ctx) c.text) = owed u

instance (c : ClusterName) (known : List Text) (u : Text) : Decidable (LeadsBack c known u) :=
  inferInstanceAs (Decidable (_ ∧ _))

/-- The names that are written as they are can be read as URL text: the global name holds no
separator of paths, `project` and `target` no `&`, and none of them anything to decode. -/
def NamesPlain (u : Text) : Prop :=
  (∀ j s, (parse u).segs[j]? = some s → NamedAt (parse u).segs j s →
      IsSeg (decode s) ∧ decode (decode s) = decode s) ∧
    ∀ p ∈ (parse u).params, p.names → ∀ v, p.v = some v → v ≠ [] → '&' ∉ v ∧ decode v = v

theorem urlReturns_iff_namesPlain (hc : c.text ∈ known) (hun : Unqualified known u) :
    UrlReturns c u ↔ NamesPlain u := by
  have hseg : ∀ j s, (parse u).segs[j]? = some s → ¬ '@' :: c.text <:+ decode s := fun j s hs =>
    hun.1 _ (List.mem_map_of_mem (List.mem_of_getElem? hs)) _ hc
  have hparam : ∀ p ∈ (parse u).params, ∀ v, p.v = some v → ¬ '@' :: c.text <:+ v := fun p hp v hv =>
    hun.2 p.said (List.mem_map_of_mem hp) v hv _ hc
  refine and_congr ?_ ?_
  · refine forall_congr' fun j => forall_congr' fun s => forall_congr' fun hs => ?_
    unfold SegReturns
    split_ifs with h
    · simp [h]
    · exact iff_of_true (hseg j s hs) fun hat => absurd hat h
  · refine forall₂_congr fun p hp => ?_
    constructor
    · intro h hnames v hv
      have hback := h v hv
      rwa [if_pos hnames] at hback
    · intro h v hv
      split_ifs with hnames
      · exact h hnames v hv
      · exact hparam p hp v hv

def clusterD : ClusterName := ⟨"cluster-d".toList, by decide⟩

end IncusCloud.Federation
