import IncusCloud.Federation.Proofs.Qualified

/-!
# Documents read and written back

A response gains qualifiers by key, by what was asked for, by nesting and by the shape of URLs
(`walkMetadata`); a request loses a trailing qualifier from every string (`stripBody`). Strings are
compared as what they say: a URL by its reading, any other text as it is. `Returns` says, with the
recursion of `walk`, when each string of a document survives both.
-/

namespace IncusCloud.Federation

open Lib List

variable {σ τ : Type}

/-! ### JSON values -/

mutual

def Json.map (f : σ → τ) : Json σ → Json τ
  | .null => .null
  | .bool b => .bool b
  | .num n => .num n
  | .str s => .str (f s)
  | .arr xs => .arr (Json.mapAll f xs)
  | .obj o => .obj (Json.mapEntries f o)

def Json.mapAll (f : σ → τ) : List (Json σ) → List (Json τ)
  | [] => []
  | x :: xs => x.map f :: Json.mapAll f xs

def Json.mapEntries (f : σ → τ) : List (Text × Json σ) → List (Text × Json τ)
  | [] => []
  | (k, x) :: o => (k, x.map f) :: Json.mapEntries f o

end

mutual

def Json.All (p : σ → Prop) : Json σ → Prop
  | .str s => p s
  | .arr xs => Json.AllOf p xs
  | .obj o => Json.AllIn p o
  | _ => True

def Json.AllOf (p : σ → Prop) : List (Json σ) → Prop
  | [] => True
  | x :: xs => x.All p ∧ Json.AllOf p xs

def Json.AllIn (p : σ → Prop) : List (Text × Json σ) → Prop
  | [] => True
  | (_, x) :: o => x.All p ∧ Json.AllIn p o

end

theorem Json.induction {motive : Json σ → Prop} (null : motive .null) (bool : ∀ b, motive (.bool b))
    (num : ∀ n, motive (.num n)) (str : ∀ s, motive (.str s))
    (arr : ∀ xs, (∀ x ∈ xs, motive x) → motive (.arr xs))
    (obj : ∀ o, (∀ e ∈ o, motive e.2) → motive (.obj o)) (v : Json σ) : motive v := by
  refine @Json.rec σ motive (fun xs => ∀ x ∈ xs, motive x) (fun o => ∀ e ∈ o, motive e.2)
    (fun e => motive e.2) null bool num str arr obj ?_ ?_ ?_ ?_ ?_ v
  · exact fun _ h => nomatch h
  · exact fun x xs hx hxs => forall_mem_cons.mpr ⟨hx, hxs⟩
  · exact fun _ h => nomatch h
  · exact fun e o he ho => forall_mem_cons.mpr ⟨he, ho⟩
  · exact fun _ _ hx => hx

theorem Json.mapAll_eq (f : σ → τ) (xs : List (Json σ)) : Json.mapAll f xs = xs.map (Json.map f) := by
  induction xs with
  | nil => rfl
  | cons x xs ih => rw [Json.mapAll, ih, map_cons]

theorem Json.mapEntries_eq (f : σ → τ) (o : List (Text × Json σ)) :
    Json.mapEntries f o = o.map fun e => (e.1, e.2.map f) := by
  induction o with
  | nil => rfl
  | cons e o ih => rw [Json.mapEntries, ih, map_cons]

theorem Json.allOf_iff (p : σ → Prop) (xs : List (Json σ)) :
    Json.AllOf p xs ↔ ∀ x ∈ xs, x.All p := by
  induction xs with
  | nil => simp [Json.AllOf]
  | cons x xs ih => rw [Json.AllOf, ih, forall_mem_cons]

theorem Json.allIn_iff (p : σ → Prop) (o : List (Text × Json σ)) :
    Json.AllIn p o ↔ ∀ e ∈ o, e.2.All p := by
  induction o with
  | nil => simp [Json.AllIn]
  | cons e o ih => rw [Json.AllIn, ih, forall_mem_cons]

theorem stripBodies_eq (cluster : Text) (xs : List (Json Text)) :
    stripBodies cluster xs = xs.map (stripBody cluster) := by
  induction xs with
  | nil => rfl
  | cons x xs ih => rw [stripBodies, ih, map_cons]

theorem stripEntries_eq (cluster : Text) (o : List (Text × Json Text)) :
    stripEntries cluster o = o.map fun e => (e.1, stripBody cluster e.2) := by
  induction o with
  | nil => rfl
  | cons e o ih => rw [stripEntries, ih, map_cons]

variable (c : Ctx)

theorem walkAll_eq (identity : List Text) (xs : List (Json Text)) :
    walkAll c identity xs = xs.map (walk c identity) := by
  induction xs with
  | nil => rfl
  | cons x xs ih => rw [walkAll, ih, map_cons]

theorem walkEntries_eq (identity : List Text) (op : Bool) (o : List (Text × Json Text)) :
    walkEntries c identity op o = o.filterMap fun e =>
      if e.1 = "__proto__".toList then none
      else some (e.1, walkEntry c identity op e.1 e.2 (walk c [] e.2)) := by
  induction o with
  | nil => rfl
  | cons e o ih =>
    rw [walkEntries, filterMap_cons, ih]
    split_ifs <;> rfl

/-! ### Strings -/

def sayText (s : Text) : Text ⊕ Reading := if isUrl s then .inr (read s) else .inl s

variable {s : Text}

theorem isUrl_iff : isUrl s = true ↔ ∃ t, s = [] ++ '/' :: ("1.0".toList ++ '/' :: t) := by
  unfold isUrl
  rw [ isPrefixOf_iff_prefix]
  constructor
  · rintro ⟨t, rfl⟩
    exact ⟨t, rfl⟩
  · rintro ⟨t, rfl⟩
    exact ⟨t, rfl⟩

theorem parse_segs_of_isUrl (h : isUrl s = true) :
    ∃ segs, segs ≠ [] ∧ (parse s).segs = [] :: "1.0".toList :: segs := by
  obtain ⟨t, rfl⟩ := isUrl_iff.mp h
  refine ⟨(parse t).segs, parse_segs_ne_nil t, ?_⟩
  rw [parse_segs_cons ⟨by simp, by simp⟩, parse_segs_cons ⟨by decide, by decide⟩]

theorem isUrl_render {segs : List Text} (h : segs ≠ []) (params : List Text) :
    isUrl (render ([] :: "1.0".toList :: segs) params) = true := by
  rw [isUrl_iff]
  exact ⟨render segs params, by rw [render_cons (by simp), render_cons h]⟩

theorem isUrl_stripRequest (c : ClusterName) (h : isUrl s = true) :
    isUrl (stripRequest s c.text) = true := by
  obtain ⟨segs, hne, hsegs⟩ := parse_segs_of_isUrl h
  have hempty : stripSeg c.text [] = [] := by
    have hnil : stripName (decode []) c.text = decode [] := stripName_nil c.text
    exact if_pos hnil
  have hversion : stripSeg c.text "1.0".toList = "1.0".toList := by
    have hdecode : decode "1.0".toList = "1.0".toList := decode_plain (by decide) (by decide)
    have hstrip : stripName (decode "1.0".toList) c.text = decode "1.0".toList := by
      rw [stripName_eq_self, hdecode]
      intro hsuffix
      exact absurd (hsuffix.subset mem_cons_self) (by decide)
    exact if_pos hstrip
  rw [stripRequest_eq, hsegs, map_cons, map_cons, hempty, hversion]
  exact isUrl_render (by simpa using hne) _

theorem isUrl_qualifyUrl (c : ClusterName) (h : isUrl s = true) :
    isUrl (qualifyUrl s c.ctx) = true := by
  obtain ⟨segs, hne, hsegs⟩ := parse_segs_of_isUrl h
  have hq : ∃ segs', segs' ≠ [] ∧
      qualifySegs c.ctx (parse s).segs = [] :: "1.0".toList :: segs' := by
    unfold qualifySegs
    cases hname : nameAt (parse s).segs with
    | none => exact ⟨segs, hne, hsegs⟩
    | some i =>
      obtain ⟨k, rfl⟩ := Nat.exists_eq_add_of_le' (three_le_of_nameAt hname)
      simp only []
      rw [hsegs]
      refine ⟨segs.modify (k + 1) fun s => if s = [] then s else q (decode s) c.ctx, ?_, rfl⟩
      intro hnil
      have hlen := congrArg List.length hnil
      rw [length_modify] at hlen
      exact hne (length_eq_zero_iff.mp hlen)
  obtain ⟨segs', hne', hsegs'⟩ := hq
  rw [qualifyUrl_eq, hsegs']
  exact isUrl_render hne' _

theorem isUrl_mono {s t : Text} (h : s <+: t) (hs : isUrl s = true) : isUrl t = true := by
  unfold isUrl at hs ⊢
  rw [ isPrefixOf_iff_prefix] at hs ⊢
  exact hs.trans h

theorem stripName_isPrefix (s cluster : Text) : stripName s cluster <+: s := by
  unfold stripName
  split_ifs
  · exact take_prefix _ s
  · exact prefix_refl s

theorem isUrl_qualify (c : ClusterName) (s : Text) : isUrl (qualify s c.text) = isUrl s := by
  rw [Bool.eq_iff_iff]
  constructor
  · intro h
    unfold isUrl at h ⊢
    rw [ isPrefixOf_iff_prefix] at h ⊢
    rcases prefix_or_prefix_of_prefix h (prefix_append s _) with hp | hp
    · exact hp
    · -- A shorter text would put the `@` into `/1.0/`.
      obtain ⟨r, hr⟩ := hp
      cases r with
      | nil => rw [append_nil] at hr; rw [hr]
      | cons ch r =>
        obtain ⟨t, ht⟩ := h
        rw [← hr, qualify, append_assoc] at ht
        have hch : ch = '@' := (List.cons.inj (append_cancel_left ht)).1
        have hmem : '@' ∈ "/1.0/".toList := by
          rw [← hr, hch]
          simp
        exact absurd hmem (by decide)
  · exact isUrl_mono (prefix_append s _)

/-- A string that is not qualified comes back exactly when nothing in it ends like a qualified
name. -/
def Left (c : ClusterName) (s : Text) : Prop :=
  if isUrl s then
    (∀ d ∈ (read s).segs, ¬ '@' :: c.text <:+ d) ∧
      ∀ p ∈ (read s).params, ∀ v ∈ p.2, ¬ '@' :: c.text <:+ v
  else ¬ '@' :: c.text <:+ s

theorem strip_segs_iff (c : ClusterName) (segs : List Text) :
    segs.map (fun s => stripName s c.text) = segs ↔ ∀ d ∈ segs, ¬ '@' :: c.text <:+ d := by
  conv_lhs => rhs; rw [← map_id segs]
  rw [map_inj_left]
  exact forall₂_congr fun d _ => stripName_eq_self

theorem strip_value_iff (c : ClusterName) (p : Text × Option Text) :
    (p.1, p.2.map fun v => stripName v c.text) = p ↔ ∀ v ∈ p.2, ¬ '@' :: c.text <:+ v := by
  obtain ⟨k, v⟩ := p
  cases v with
  | none => simp
  | some v => simp [stripName_eq_self]

theorem strip_params_iff (c : ClusterName) (params : List (Text × Option Text)) :
    params.map (fun p => (p.1, p.2.map fun v => stripName v c.text)) = params ↔
      ∀ p ∈ params, ∀ v ∈ p.2, ¬ '@' :: c.text <:+ v := by
  conv_lhs => rhs; rw [← map_id params]
  rw [map_inj_left]
  exact forall₂_congr fun p _ => strip_value_iff c p

theorem left_iff (c : ClusterName) (s : Text) :
    sayText (stripText c.text s) = sayText s ↔ Left c s := by
  unfold stripText Left sayText
  split_ifs with h h' h'
  · rw [Sum.inr.injEq, read_stripRequest, Reading.ext_iff]
    exact and_congr (strip_segs_iff c _) (strip_params_iff c _)
  · exact absurd (isUrl_stripRequest c h) h'
  · exact absurd (isUrl_mono (stripName_isPrefix s c.text) h') h
  · rw [Sum.inl.injEq]
    exact stripName_eq_self

/-- A string that is qualified by its key comes back unless it is a URL whose other parts end like
qualified names, or whose last parameter takes the qualifier into its name. -/
def KeyedReturns (c : ClusterName) (s : Text) : Prop :=
  isUrl s = true →
    if '?' ∈ s then
      (∀ d ∈ (read s).segs, ¬ '@' :: c.text <:+ d) ∧
        (∃ p, (read s).params.getLast? = some p ∧ p.2 ≠ none) ∧
          ∀ p ∈ (read s).params.dropLast, ∀ v ∈ p.2, ¬ '@' :: c.text <:+ v
    else ∀ d ∈ (read s).segs.dropLast, ¬ '@' :: c.text <:+ d

theorem read_path (h : '?' ∉ s) :
    read s = { segs := (s.splitOn '/').map decode, params := [] } := by
  unfold read parse
  rw [cut_of_not_mem h]
  rfl

theorem read_query {x : Text} (h : '?' ∉ x) {y : Text} (hy : y ≠ []) :
    read (x ++ '?' :: y) =
      { segs := (x.splitOn '/').map decode
        params := (y.splitOn '&').map fun r => (param r).said } := by
  unfold read parse
  rw [cut_append h]
  cases y with
  | nil => exact absurd rfl hy
  | cons ch y =>
    simp only [Option.getD_some, map_map]
    rfl

theorem strip_said_qualify (c : ClusterName) (r : Text) :
    ((param (qualify r c.text)).said.1,
        (param (qualify r c.text)).said.2.map fun v => stripName v c.text) = (param r).said ↔
      (param r).said.2 ≠ none := by
  rcases cut_cases '=' r with ⟨hr, hcut⟩ | ⟨k, v, hk, rfl, hcut⟩
  · have hq : '=' ∉ qualify r c.text := by
      rw [mem_qualify c (by decide) (by decide)]
      exact hr
    have hparam : (param r).said = (decode r, none) := by rw [param, hcut]; rfl
    have hparamq : (param (qualify r c.text)).said = (qualify (decode r) c.text, none) := by
      rw [param, cut_of_not_mem hq, ← decode_qualify]
      rfl
    rw [hparam, hparamq]
    have hne : qualify (decode r) c.text ≠ decode r := by
      intro h
      have := congrArg List.length h
      simp [qualify] at this
    simp [hne]
  · have happ : qualify (k ++ '=' :: v) c.text = k ++ '=' :: qualify v c.text := by simp [qualify]
    rw [happ, param_append hk, param_append hk]
    simp [Param.said]

theorem keyed_url_iff (c : ClusterName) (s : Text) :
    (read (qualify s c.text)).strip c.text = read s ↔
      if '?' ∈ s then
        (∀ d ∈ (read s).segs, ¬ '@' :: c.text <:+ d) ∧
          (∃ p, (read s).params.getLast? = some p ∧ p.2 ≠ none) ∧
            ∀ p ∈ (read s).params.dropLast, ∀ v ∈ p.2, ¬ '@' :: c.text <:+ v
      else ∀ d ∈ (read s).segs.dropLast, ¬ '@' :: c.text <:+ d := by
  have hend : ∀ ch, nameChar ch = false → ch ≠ '@' → ch ∉ '@' :: c.text := by
    intro ch hch hat
    simp [hat, c.not_mem hch]
  rcases cut_cases '?' s with ⟨hs, -⟩ | ⟨x, y, hx, rfl, -⟩
  · have hq : '?' ∉ qualify s c.text := by
      rw [mem_qualify c (by decide) (by decide)]
      exact hs
    obtain ⟨init, last, hinit, hlast⟩ :=
      splitOn_append_of_not_mem (hend '/' (by decide) (by decide)) s
    have hlast' : (qualify s c.text).splitOn '/' = init ++ [qualify last c.text] := hlast
    rw [if_neg hs, read_path hs, read_path hq, hinit, hlast', Reading.ext_iff]
    simp only [Reading.strip, map_append, map_singleton, decode_qualify, stripName_qualify,
      dropLast_concat, map_nil, and_true, append_cancel_right_eq]
    exact strip_segs_iff c _
  · have happ : qualify (x ++ '?' :: y) c.text = x ++ '?' :: qualify y c.text := by simp [qualify]
    have hyq : qualify y c.text ≠ [] := by simp [qualify]
    rw [if_pos (by simp), happ, read_query hx hyq]
    by_cases hy : y = []
    · -- An empty query becomes a parameter.
      subst hy
      have hempty : read (x ++ ['?']) = { segs := (x.splitOn '/').map decode, params := [] } := by
        unfold read parse
        rw [cut_append hx]
        rfl
      rw [hempty, Reading.ext_iff]
      simp only [Reading.strip, map_eq_nil_iff, splitOn_ne_nil, and_false, List.getLast?_nil,
        reduceCtorEq, false_and, exists_false]
    · obtain ⟨init, last, hinit, hlast⟩ :=
        splitOn_append_of_not_mem (hend '&' (by decide) (by decide)) y
      have hlast' : (qualify y c.text).splitOn '&' = init ++ [qualify last c.text] := hlast
      rw [read_query hx hy, hinit, hlast', Reading.ext_iff]
      simp only [Reading.strip, map_append, map_singleton, List.getLast?_concat,
        dropLast_concat, Option.some.injEq, exists_eq_left']
      refine and_congr (strip_segs_iff c _) ?_
      rw [append_singleton_inj, and_comm, strip_said_qualify, strip_params_iff]

theorem keyed_iff (c : ClusterName) (s : Text) :
    sayText (stripText c.text (q s c.ctx)) = sayText s ↔ KeyedReturns c s := by
  unfold KeyedReturns
  rw [q_ctx]
  by_cases hnil : s = []
  · subst hnil
    have hstrip : stripText c.text [] = [] := stripName_nil c.text
    rw [if_pos rfl, hstrip]
    exact iff_of_true rfl fun h => absurd h (by decide)
  · rw [if_neg hnil, stripText, isUrl_qualify]
    by_cases hurl : isUrl s = true
    · have hq : isUrl (qualify s c.text) = true := by rw [isUrl_qualify, hurl]
      rw [if_pos hurl, sayText, if_pos (isUrl_stripRequest c hq), sayText, if_pos hurl,
        Sum.inr.injEq, read_stripRequest]
      simp only [hurl, forall_const]
      exact keyed_url_iff c s
    · rw [if_neg hurl, stripName_qualify]
      exact iff_of_true rfl fun h => absurd h hurl

theorem walked_iff (c : ClusterName) (hurl : isUrl s = true)
    (hproject : namesNone s = false) :
    sayText (stripText c.text (qualifyUrl s c.ctx)) = sayText s ↔ UrlReturns c s := by
  have howed : owed s = read s := by
    ext1
    · rfl
    · simp [owed, hproject]
  have hq := isUrl_qualifyUrl c hurl
  rw [stripText, if_pos hq, sayText, if_pos (isUrl_stripRequest c hq), sayText, if_pos hurl,
    Sum.inr.injEq, ← howed]
  exact read_strip_qualifyUrl c s

/-! ### Documents -/

/-- Two documents that say the same: equal up to the percent-encoding of the segments and
parameters of URLs. -/
def SameDocument (v w : Json Text) : Prop := v.map sayText = w.map sayText

/-- What a string needs to come back when it is walked. -/
def TextReturns (c : ClusterName) (s : Text) : Prop :=
  if isUrl s then UrlReturns c s else ¬ '@' :: c.text <:+ s

/-- What the entry `k: x` needs to come back, where `deep` says what `x` needs as a nested value:
strings qualified by their key, names in qualified lists, and everything of `config` as it is. -/
def EntryReturns (c : ClusterName) (identity : List Text) (isOperation : Bool) (k : Text)
    (x : Json Text) (deep : Prop) : Prop :=
  let rest := if k = "config".toList ∨ k = "expanded_config".toList then x.All (Left c) else deep
  match x with
  | .str s =>
    if k = "project".toList ∨ k = "pool".toList ∨ k ∈ identity then KeyedReturns c s
    else if k = "location".toList then KeyedReturns c s
    else if k = "id".toList ∧ isOperation then KeyedReturns c s
    else rest
  | .arr xs =>
    if k = "locations".toList ∨ ("server_name".toList ∈ identity ∧ k = "groups".toList) ∨
        ("members".toList ∈ identity ∧ k = "members".toList) then
      ∀ m ∈ xs, match m with
        | .str s => KeyedReturns c s
        | m => m.All (Left c)
    else rest
  | _ => rest

mutual

def Returns (c : ClusterName) (identity : List Text) : Json Text → Prop
  | .str s => TextReturns c s
  | .arr xs => ReturnsAll c identity xs
  | .obj o => ReturnsIn c identity (isOperation o) o
  | _ => True

def ReturnsAll (c : ClusterName) (identity : List Text) : List (Json Text) → Prop
  | [] => True
  | x :: xs => Returns c identity x ∧ ReturnsAll c identity xs

def ReturnsIn (c : ClusterName) (identity : List Text) (isOperation : Bool) :
    List (Text × Json Text) → Prop
  | [] => True
  | (k, x) :: o =>
    (k ≠ "__proto__".toList ∧ EntryReturns c identity isOperation k x (Returns c [] x)) ∧
      ReturnsIn c identity isOperation o

end

theorem returnsAll_iff (c : ClusterName) (identity : List Text) (xs : List (Json Text)) :
    ReturnsAll c identity xs ↔ ∀ x ∈ xs, Returns c identity x := by
  induction xs with
  | nil => simp [ReturnsAll]
  | cons x xs ih => rw [ReturnsAll, ih, forall_mem_cons]

theorem returnsIn_iff (c : ClusterName) (identity : List Text) (op : Bool)
    (o : List (Text × Json Text)) :
    ReturnsIn c identity op o ↔ ∀ e ∈ o, e.1 ≠ "__proto__".toList ∧
      EntryReturns c identity op e.1 e.2 (Returns c [] e.2) := by
  induction o with
  | nil => simp [ReturnsIn]
  | cons e o ih => rw [ReturnsIn, ih, forall_mem_cons]

/-! ### Values of each kind -/

section

variable (cluster : Text) (c : Ctx) (identity : List Text) (p : σ → Prop) (f : σ → τ)

theorem stripBody_str (s : Text) : stripBody cluster (.str s) = .str (stripText cluster s) := rfl

theorem stripBody_arr (xs : List (Json Text)) : stripBody cluster (.arr xs) = .arr (stripBodies cluster xs) := rfl

theorem stripBody_obj (o : List (Text × Json Text)) :
    stripBody cluster (.obj o) = .obj (stripEntries cluster o) := rfl

theorem walk_str (s : Text) : walk c identity (.str s) = .str (if isUrl s then qualifyUrl s c else s) := rfl

theorem walk_arr (xs : List (Json Text)) : walk c identity (.arr xs) = .arr (walkAll c identity xs) := rfl

theorem walk_obj (o : List (Text × Json Text)) :
    walk c identity (.obj o) = .obj (walkEntries c identity (isOperation o) o) := rfl

theorem Json.map_str (s : σ) : (Json.str s).map f = .str (f s) := rfl

theorem Json.map_arr (xs : List (Json σ)) : (Json.arr xs).map f = .arr (Json.mapAll f xs) := rfl

theorem Json.map_obj (o : List (Text × Json σ)) : (Json.obj o).map f = .obj (Json.mapEntries f o) := rfl

theorem Json.all_arr (xs : List (Json σ)) : (Json.arr xs).All p = Json.AllOf p xs := rfl

theorem Json.all_obj (o : List (Text × Json σ)) : (Json.obj o).All p = Json.AllIn p o := rfl

end

theorem returns_arr (c : ClusterName) (identity : List Text) (xs : List (Json Text)) :
    Returns c identity (.arr xs) = ReturnsAll c identity xs := rfl

theorem returns_obj (c : ClusterName) (identity : List Text) (o : List (Text × Json Text)) :
    Returns c identity (.obj o) = ReturnsIn c identity (isOperation o) o := rfl

theorem left_document_iff (c : ClusterName) (v : Json Text) :
    SameDocument (stripBody c.text v) v ↔ v.All (Left c) := by
  unfold SameDocument
  induction v using Json.induction with
  | null => exact iff_of_true rfl trivial
  | bool b => exact iff_of_true rfl trivial
  | num n => exact iff_of_true rfl trivial
  | str s =>
    rw [stripBody_str, Json.map_str, Json.map_str, Json.str.injEq]
    exact left_iff c s
  | arr xs ih =>
    simp only [stripBody_arr, Json.map_arr, Json.all_arr, Json.arr.injEq, Json.mapAll_eq,
      stripBodies_eq, Json.allOf_iff, map_map, map_inj_left]
    exact forall₂_congr fun x hx => ih x hx
  | obj o ih =>
    simp only [stripBody_obj, Json.map_obj, Json.all_obj, Json.obj.injEq, Json.mapEntries_eq, stripEntries_eq,
      Json.allIn_iff, map_map, map_inj_left, Function.comp, Prod.mk.injEq, true_and]
    exact forall₂_congr fun e he => ih e he

theorem listed_iff (c : ClusterName) (k : Text) (m : Json Text) :
    SameDocument (stripBody c.text (match m with
        | .str m => .str (if k = "groups".toList then q m c.ctx else member m c.ctx)
        | m => m)) m ↔
      match m with
      | .str s => KeyedReturns c s
      | m => m.All (Left c) := by
  cases m with
  | str s =>
    simp only [member_ctx, ite_self, SameDocument, stripBody_str, Json.map_str, Json.str.injEq]
    exact keyed_iff c s
  | null => exact left_document_iff c .null
  | bool b => exact left_document_iff c (.bool b)
  | num n => exact left_document_iff c (.num n)
  | arr xs => exact left_document_iff c (.arr xs)
  | obj o => exact left_document_iff c (.obj o)

theorem entry_iff (c : ClusterName) (identity : List Text) (op : Bool) (k : Text)
    {x deep : Json Text} {P : Prop} (hdeep : SameDocument (stripBody c.text deep) x ↔ P) :
    SameDocument (stripBody c.text (walkEntry c.ctx identity op k x deep)) x ↔
      EntryReturns c identity op k x P := by
  have hrest : SameDocument (stripBody c.text
        (if k = "config".toList ∨ k = "expanded_config".toList then x else deep)) x ↔
      if k = "config".toList ∨ k = "expanded_config".toList then x.All (Left c) else P := by
    split_ifs
    · exact left_document_iff c x
    · exact hdeep
  have hkeyed : ∀ s, SameDocument (stripBody c.text (.str (q s c.ctx))) (.str s) ↔
      KeyedReturns c s := by
    intro s
    simp only [SameDocument, stripBody_str, Json.map_str, Json.str.injEq]
    exact keyed_iff c s
  unfold walkEntry EntryReturns
  cases x with
  | str s =>
    simp only [member_ctx]
    by_cases hname : k = "project".toList ∨ k = "pool".toList ∨ k ∈ identity
    · rw [if_pos hname, if_pos hname]
      exact hkeyed s
    · rw [if_neg hname, if_neg hname]
      by_cases hlocation : k = "location".toList
      · rw [if_pos hlocation, if_pos hlocation]
        exact hkeyed s
      · rw [if_neg hlocation, if_neg hlocation]
        by_cases hid : k = "id".toList ∧ op = true
        · rw [if_pos hid, if_pos hid]
          exact hkeyed s
        · rw [if_neg hid, if_neg hid]
          exact hrest
  | arr xs =>
    simp only []
    by_cases hlist : k = "locations".toList ∨
        ("server_name".toList ∈ identity ∧ k = "groups".toList) ∨
          ("members".toList ∈ identity ∧ k = "members".toList)
    · rw [if_pos hlist, if_pos hlist]
      simp only [SameDocument, stripBody_arr, Json.map_arr, Json.arr.injEq, Json.mapAll_eq,
        stripBodies_eq, map_map, map_inj_left]
      exact forall₂_congr fun m _ => listed_iff c k m
    · rw [if_neg hlist, if_neg hlist]
      exact hrest
  | null => exact hrest
  | bool b => exact hrest
  | num n => exact hrest
  | obj o => exact hrest

theorem filterMap_eq_map_iff {α β : Type*} {f : α → Option β} {g : α → β} {l : List α} :
    l.filterMap f = l.map g ↔ ∀ a ∈ l, f a = some (g a) := by
  constructor
  · intro h
    induction l with
    | nil => simp
    | cons a l ih =>
      cases hf : f a with
      | none =>
        rw [filterMap_cons_none hf] at h
        have hlen := congrArg List.length h
        have hle := length_filterMap_le f l
        simp only [length_map, length_cons] at hlen
        omega
      | some b =>
        rw [filterMap_cons_some hf, map_cons, List.cons.injEq] at h
        exact forall_mem_cons.mpr ⟨by rw [hf, h.1], ih h.2⟩
  · intro h
    rw [← filterMap_eq_map]
    exact filterMap_congr h

def NamesItsProject (s : Text) : Prop := isUrl s = true → namesNone s = false

theorem walk_iff (c : ClusterName) (v : Json Text) (hv : v.All NamesItsProject)
    (identity : List Text) :
    SameDocument (stripBody c.text (walk c.ctx identity v)) v ↔ Returns c identity v := by
  induction v using Json.induction generalizing identity with
  | null => exact iff_of_true rfl trivial
  | bool b => exact iff_of_true rfl trivial
  | num n => exact iff_of_true rfl trivial
  | str s =>
    show _ ↔ TextReturns c s
    simp only [walk_str, stripBody_str, SameDocument, Json.map_str, Json.str.injEq, TextReturns]
    split_ifs with h
    · exact walked_iff c h (hv h)
    · have hleft := left_iff c s
      rwa [Left, if_neg h] at hleft
  | arr xs ih =>
    rw [Json.all_arr, Json.allOf_iff] at hv
    simp only [walk_arr, stripBody_arr, SameDocument, Json.map_arr, returns_arr, Json.arr.injEq,
      Json.mapAll_eq, stripBodies_eq, walkAll_eq, map_map, map_inj_left, returnsAll_iff]
    exact forall₂_congr fun x hx => ih x hx (hv x hx) identity
  | obj o ih =>
    rw [Json.all_obj, Json.allIn_iff] at hv
    simp only [walk_obj, stripBody_obj, SameDocument, Json.map_obj, returns_obj, Json.obj.injEq, Json.mapEntries_eq,
      stripEntries_eq, walkEntries_eq, map_filterMap, filterMap_eq_map_iff, returnsIn_iff]
    refine forall₂_congr fun e he => ?_
    have hentry := entry_iff c identity (isOperation o) e.1 (ih e he (hv e he) [])
    rw [← hentry]
    by_cases hproto : e.1 = "__proto__".toList
    · rw [if_pos hproto]
      exact iff_of_false (nofun) fun h => h.1 hproto
    · rw [if_neg hproto, Option.map_some, Option.map_some, Option.some.injEq, Prod.mk.injEq]
      exact ⟨fun h => ⟨hproto, h.2⟩, fun h => ⟨rfl, h.2⟩⟩

/-! ### Metadata -/

/-- What a response's metadata needs to come back: the lists of an operations list are walked each
on its own, under any key. -/
def MetadataReturns (c : ClusterName) (identity : List Text) : Json Text → Prop
  | .obj o =>
    if isOperations o then ∀ e ∈ o, Returns c identity e.2 else Returns c identity (.obj o)
  | v => Returns c identity v

theorem walkMetadata_arr (identity : List Text) (xs : List (Json Text)) :
    walkMetadata c identity (.arr xs) = walk c identity (.arr xs) := by
  rw [walkMetadata, walk_arr, walkAll_eq]

theorem walkMetadata_operations (identity : List Text) {o : List (Text × Json Text)}
    (h : isOperations o = true) :
    walkMetadata c identity (.obj o) = .obj (o.map fun e => (e.1, walk c identity e.2)) := by
  rw [walkMetadata, if_pos h, Json.obj.injEq]
  apply map_congr_left
  rintro ⟨k, x⟩ -
  cases x with
  | arr l =>
    simp only []
    rw [walk_arr, walkAll_eq]
  | _ => rfl

theorem walkMetadata_iff (c : ClusterName) (identity : List Text) (v : Json Text)
    (hv : v.All NamesItsProject) :
    SameDocument (stripBody c.text (walkMetadata c.ctx identity v)) v ↔
      MetadataReturns c identity v := by
  cases v with
  | obj o =>
    by_cases h : isOperations o = true
    · rw [walkMetadata_operations c.ctx identity h, MetadataReturns, if_pos h]
      rw [Json.all_obj, Json.allIn_iff] at hv
      simp only [stripBody_obj, SameDocument, Json.map_obj, Json.obj.injEq, Json.mapEntries_eq,
        stripEntries_eq, map_map, map_inj_left, Function.comp, Prod.mk.injEq, true_and]
      exact forall₂_congr fun e he => walk_iff c e.2 (hv e he) identity
    · rw [walkMetadata, if_neg h, MetadataReturns, if_neg h]
      exact walk_iff c (.obj o) hv identity
  | arr xs =>
    rw [walkMetadata_arr]
    exact walk_iff c (.arr xs) hv identity
  | null => exact walk_iff c .null hv identity
  | bool b => exact walk_iff c (.bool b) hv identity
  | num n => exact walk_iff c (.num n) hv identity
  | str s => exact walk_iff c (.str s) hv identity

def Json.field (k : Text) : Json Text → Option (Json Text)
  | .obj o => (o.find? (·.1 = k)).map (·.2)
  | _ => none

theorem field_walkEntries_eq_none (identity : List Text) (op : Bool) (k : Text)
    (o : List (Text × Json Text)) :
    (walkEntries c identity op (o.filter (·.1 ≠ k))).find? (·.1 = k) = none := by
  rw [List.find?_eq_none, walkEntries_eq]
  intro x hx
  obtain ⟨y, hy, hyx⟩ := List.mem_filterMap.mp hx
  have hne : y.1 ≠ k := of_decide_eq_true (mem_filter.mp hy).2
  split_ifs at hyx
  cases hyx
  exact fun h => hne (of_decide_eq_true h)

theorem field_qualifyResponse (path : Text) (body v : Json Text) (c : ClusterName)
    (hv : body.field "metadata".toList = some v) :
    (qualifyResponse path body c.text).field "metadata".toList =
      some (walkMetadata c.ctx (identityOf path) v) := by
  cases body with
  | obj o =>
    obtain ⟨e, he, rfl⟩ := Option.map_eq_some_iff.mp hv
    have hkey := List.find?_some he
    have hout := field_walkEntries_eq_none c.ctx []
      (isOperation (o.filter (·.1 ≠ "metadata".toList))) "metadata".toList o
    have hbody : qualifyResponse path (.obj o) c.text =
        .obj (walkEntries c.ctx [] (isOperation (o.filter (·.1 ≠ "metadata".toList)))
          (o.filter (·.1 ≠ "metadata".toList)) ++
            [(e.1, walkMetadata c.ctx (identityOf path) e.2)]) := by
      rw [qualifyResponse, he]
      rfl
    rw [hbody, Json.field, List.find?_append, hout, Option.none_or, List.find?_singleton,
      if_pos hkey, Option.map_some]
  | _ => cases hv

def profileDocument : Json Text :=
  .obj [("project".toList, .str "acme".toList),
    ("used_by".toList, .arr [.str "/1.0/storage-pools/local".toList])]

/-- An instance whose configuration holds an address that ends like a name of the cluster. -/
def mailDocument : Json Text :=
  .obj [("config".toList, .obj [("user.mail".toList, .str "ops@cluster-d".toList)])]

end IncusCloud.Federation
