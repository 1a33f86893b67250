import IncusCloud.Forms.Devices

/-!
# Which limits an unchanged form keeps

A number comes back as it was where it is a plain decimal (or, where it is not multiplied by a unit,
the text `NaN`), a memory limit where it is a plain decimal before a unit, and a CPU limit also
where it is a set of CPUs, or a topology as the form writes it (`cpu_kept_iff`, `memory_kept_iff`,
`number_kept_iff`).
-/

namespace IncusCloud.Forms

open Lib Number List
open String (toList_ofList toList_inj)

/-! ### Numbers -/

variable (v : String)

/-- A plain decimal, maybe negative, or `NaN`. -/
def NumberKept : Prop := v.toList = "NaN".toList ∨ PrintedInt v.toList

theorem number_kept_iff : (parseNumber (some v)).map numberText = some v ↔ NumberKept v := by
  have hnil : ∀ (ch : Char), ch ∈ ([] : List Char).head? → ch.isDigit = false := fun ch h => nomatch h
  have hhex : ∀ (ch : Char), ch ∈ ([] : List Char).head? → ch ≠ 'x' ∧ ch ≠ 'X' := fun ch h => nomatch h
  have htext := text_parseInt_append (w := v.toList) hnil hhex
  rw [append_nil] at htext
  unfold NumberKept
  rw [← htext]
  by_cases hempty : v = ""
  · subst hempty
    refine iff_of_false (nofun) ?_
    decide
  · have hfilter : (some v).filter (· ≠ "") = some v := by simp [hempty]
    unfold parseNumber numberText
    rw [hfilter, Option.map_some, Option.map_some, Option.some.injEq, ← toList_inj, toList_ofList]

/-! ### Memory -/

/-- A plain decimal that is not zero before a unit without digits, or before a `%`, where it may be
negative. -/
def MemoryKept : Prop :=
  if includes '%' v then ∃ w, v.toList = w ++ ['%'] ∧ PrintedInt w ∧ w ≠ ['0']
  else ∃ t u, v.toList = t ++ u ∧ Printed t ∧ t ≠ ['0'] ∧ ∀ ch ∈ u, ch.isDigit = false

theorem memory_kept_iff :
    memoryLimitToPayload (parseMemoryLimit (some v)) = some v ↔ MemoryKept v := by
  have hpayload : ∀ (n : Number) (u : List Char),
      memoryLimitToPayload (some ⟨n, String.ofList u⟩) = some v ↔ n.truthy = true ∧
        text n ++ u = v.toList := by
    intro n u
    unfold memoryLimitToPayload numberText
    by_cases htruthy : n.truthy = true
    · simp [htruthy, ← toList_inj]
    · simp [htruthy]
  by_cases hempty : v = ""
  · subst hempty
    refine iff_of_false (nofun) ?_
    rintro ⟨t, u, htu, hprinted, -⟩
    exact hprinted.ne_nil (append_eq_nil_iff.mp htu.symm).1
  · have hfilter : (some v).filter (· ≠ "") = some v := by simp [hempty]
    unfold parseMemoryLimit MemoryKept
    rw [hfilter, Option.map_some]
    split_ifs with hpercent
    · have hunit : "%" = String.ofList ['%'] := rfl
      rw [hunit, hpayload]
      have htext : ∀ w, text (parseInt (w ++ ['%'])) = w ↔ w = "NaN".toList ∨ PrintedInt w := by
        intro w
        refine text_parseInt_append ?_ ?_
        all_goals
          intro ch hch
          obtain rfl : '%' = ch := Option.some.inj hch
          decide
      constructor
      · rintro ⟨htruthy, hv⟩
        obtain ⟨hnan, hzero⟩ := (truthy_iff_text _).mp htruthy
        refine ⟨text (parseInt v.toList), hv.symm, ?_, hzero⟩
        rw [← hv] at hnan hzero
        have hagain := (htext (text (parseInt v.toList))).mp (by rw [hv])
        exact hagain.resolve_left (by rwa [hv] at hnan)
      · rintro ⟨w, hw, hprinted, hzero⟩
        have hagain := (htext w).mpr (.inr hprinted)
        rw [hw, truthy_iff_text, hagain]
        refine ⟨⟨?_, hzero⟩, rfl⟩
        rintro rfl
        rcases hprinted with hdigits | ⟨t, ht, -⟩
        · exact absurd (hdigits.isDigit 'N' (by decide)) (by decide)
        · exact absurd (List.cons.inj ht).1 (by decide)
    · rw [hpayload]
      constructor
      · rintro ⟨htruthy, hv⟩
        obtain ⟨-, hzero⟩ := (truthy_iff_text _).mp htruthy
        -- What is printed before the unit has only digits: the unit has all the rest.
        have hunit : ∀ ch ∈ v.toList.filter (fun ch => !ch.isDigit), ch.isDigit = false :=
          fun ch hch => by simpa using (mem_filter.mp hch).2
        have hdigits : ∀ ch ∈ text (parseInt v.toList), ch.isDigit = true := by
          have hparts := congrArg (List.filter fun ch => !ch.isDigit) hv
          rw [filter_append, filter_filter] at hparts
          simp only [Bool.and_self] at hparts
          have hnil := append_left_eq_self.mp hparts
          intro ch hch
          by_contra hnot
          have hmem : ch ∈ (text (parseInt v.toList)).filter fun ch => !ch.isDigit :=
            mem_filter.mpr ⟨hch, by simpa using hnot⟩
          rw [hnil] at hmem
          exact nomatch hmem
        have hreads : Reads (text (parseInt v.toList)) (v.toList.filter fun ch => !ch.isDigit) :=
          ⟨text_ne_nil _, hdigits, fun ch hch => hunit ch (mem_of_mem_head? hch), fun h => absurd h hzero⟩
        refine ⟨_, _, hv.symm, ⟨text_ne_nil _, hdigits, ?_⟩, hzero, hunit⟩
        have hvalue := hreads.value
        rw [hv] at hvalue
        rw [← hvalue]
      · rintro ⟨t, u, hv, hprinted, hzero, hu⟩
        have hreads : Reads t u :=
          ⟨hprinted.ne_nil, hprinted.isDigit, fun ch hch => hu ch (mem_of_mem_head? hch), fun h =>
            absurd h hzero⟩
        rw [hv, hreads.value, truthy_iff_text, hprinted.text_eq]
        refine ⟨⟨?_, hzero⟩, ?_⟩
        · rintro rfl
          exact absurd (hprinted.isDigit 'N' (by decide)) (by decide)
        · rw [filter_append]
          have ht : t.filter (fun ch => !ch.isDigit) = [] := by
            rw [filter_eq_nil_iff]
            intro ch hch
            simp [hprinted.isDigit ch hch]
          have hall : u.filter (fun ch => !ch.isDigit) = u := by
            rw [filter_eq_self]
            intro ch hch
            simp [hu ch hch]
          rw [ht, hall, nil_append]

/-! ### CPUs -/

structure PlainValue (s : String) : Prop where
  ne_empty : s ≠ ""
  comma : ',' ∉ s.toList
  equals : '=' ∉ s.toList
  trimmed : trim s = s

def TopologyKept : Prop :=
  ∃ parts : List (String × String), parts ≠ [] ∧ (parts.map (·.1)).Sublist ["sockets", "cores",
    "threads"] ∧ (∀ p ∈ parts, PlainValue p.2) ∧ v = join ',' (parts.map fun p => p.1 ++ "=" ++ p.2)

/-- A topology the form writes so, a set of CPUs, a plain decimal, or `NaN`. -/
def CpuKept : Prop :=
  if includes '=' v then TopologyKept v
  else (includes ',' v || includes '-' v) = true ∨ NumberKept v

theorem mem_trim {s : String} {ch : Char} (h : ch ∈ (trim s).toList) : ch ∈ s.toList := by
  unfold trim at h
  rw [toList_ofList, mem_reverse] at h
  have hdrop := mem_reverse.mp ((dropWhile_sublist _).mem h)
  exact (dropWhile_sublist _).mem hdrop

theorem dropWhile_eq_self {p : Char → Bool} {l : List Char} (h : ∀ ch ∈ l.head?, p ch = false) :
    l.dropWhile p = l := by
  cases l with
  | nil => rfl
  | cons ch l =>
    rw [dropWhile_cons_of_neg]
    rw [h ch rfl]
    exact Bool.false_ne_true

theorem head_dropWhile {p : Char → Bool} (l : List Char) : ∀ ch ∈ (l.dropWhile p).head?, p ch = false := by
  intro ch hch
  have hnot := List.head?_dropWhile_not p l
  rw [hch] at hnot
  simpa using hnot

theorem trim_trim (s : String) : trim (trim s) = trim s := by
  let front := s.toList.dropWhile isSpace
  have htrim : (trim s).toList = (front.reverse.dropWhile isSpace).reverse := by
    unfold trim
    rw [toList_ofList]
  -- Neither end is a space.
  have hlast : ∀ ch ∈ (trim s).toList.reverse.head?, isSpace ch = false := by
    rw [htrim, reverse_reverse]
    exact head_dropWhile _
  have hfirst : ∀ ch ∈ (trim s).toList.head?, isSpace ch = false := by
    intro ch hch
    rw [htrim, List.head?_reverse] at hch
    obtain ⟨dropped, hdropped⟩ := dropWhile_suffix (l := front.reverse) isSpace
    have hfront : front.head? = some ch := by
      rw [← List.getLast?_reverse, ← hdropped, List.getLast?_append, hch]
      rfl
    exact head_dropWhile s.toList ch hfront
  unfold trim at hfirst hlast ⊢
  rw [toList_ofList] at hfirst hlast ⊢
  rw [dropWhile_eq_self hfirst, dropWhile_eq_self hlast, reverse_reverse]

theorem plain_of_read {v : String} {e : String × String} (h : e ∈ (split ',' v).foldl readPart []) :
    ',' ∉ e.2.toList ∧ '=' ∉ e.2.toList ∧ trim e.2 = e.2 := by
  have hfield : ∀ (sep : Char) (s x : String), x ∈ split sep s → sep ∉ x.toList ∧ x.toList ⊆ s.toList := by
    intro sep s x hx
    obtain ⟨l, hl, rfl⟩ := List.mem_map.mp hx
    rw [toList_ofList]
    exact mem_splitOn hl
  suffices hall : ∀ (segments : List String) (m : OrdMap String String), (∀ s ∈ segments, ',' ∉ s.toList) →
      (∀ x ∈ m, ',' ∉ x.2.toList ∧ '=' ∉ x.2.toList ∧ trim x.2 = x.2) →
      ∀ x ∈ segments.foldl readPart m, ',' ∉ x.2.toList ∧ '=' ∉ x.2.toList ∧ trim x.2 = x.2 from
    hall _ [] (fun s hs => (hfield ',' v s hs).1) (fun _ hx => nomatch hx) e h
  intro segments
  induction segments with
  | nil => exact fun m _ hm => hm
  | cons segment segments ih =>
    intro m hsegments hm
    refine ih _ (fun s hs => hsegments s (mem_cons_of_mem _ hs)) ?_
    unfold readPart
    split
    · rename_i rawKey rawValue rest hsplit
      obtain ⟨hequals, hsub⟩ := hfield '=' segment rawValue (by rw [hsplit]; simp)
      have hcomma : ',' ∉ rawValue.toList := fun hmem => hsegments segment mem_cons_self (hsub hmem)
      unfold put
      split_ifs
      · exact hm
      · exact hm
      · intro x hx
        rcases OrdMap.mem_set hx with rfl | hx
        · exact ⟨fun hc => hcomma (mem_trim hc), fun hc => hequals (mem_trim hc), trim_trim rawValue⟩
        · exact hm x hx
    · exact hm

theorem filterMap_get {parts : List (String × String)} {names : List String}
    (hsub : (parts.map (·.1)).Sublist names) (hnames : names.Nodup) :
    names.filterMap (fun name => (OrdMap.get parts name).map fun v => (name, v)) = parts := by
  induction names generalizing parts with
  | nil => rw [map_eq_nil_iff.mp (eq_nil_of_sublist_nil hsub)]; rfl
  | cons name names ih =>
    obtain ⟨hnew, hrest⟩ := nodup_cons.mp hnames
    cases parts with
    | nil =>
      rw [filterMap_eq_nil_iff]
      exact fun _ _ => rfl
    | cons e parts =>
      rw [map_cons, sublist_cons_iff] at hsub
      rcases hsub with hsub | ⟨keys, hkeys, hsub⟩
      · -- The first name has no value.
        have hget : OrdMap.get (e :: parts) name = none := by
          by_contra hsome
          have hmem := (OrdMap.isSome_get _ _).mp (Option.isSome_iff_ne_none.mpr hsome)
          exact hnew (hsub.subset hmem)
        rw [filterMap_cons_none (by rw [hget]; rfl)]
        exact ih hsub hrest
      · obtain ⟨hname, rfl⟩ := List.cons.inj hkeys
        have hget : OrdMap.get (e :: parts) name = some e.2 := by
          rw [OrdMap.get_cons, if_pos hname]
        have hothers : names.filterMap (fun n => (OrdMap.get (e :: parts) n).map fun v => (n, v)) =
            names.filterMap fun n => (OrdMap.get parts n).map fun v => (n, v) := by
          refine filterMap_congr fun n hn => ?_
          have hne : ¬ e.1 = n := fun heq => hnew (hname ▸ heq ▸ hn)
          rw [OrdMap.get_cons, if_neg hne]
        rw [filterMap_cons_some (b := (name, e.2)) (by rw [hget]; rfl), hothers, ih hsub hrest, ← hname]

theorem readPart_part {name value : String} (m : OrdMap String String) (hname : name ≠ "" ∧ '=' ∉ name.toList)
    (htrim : trim name = name) (hproto : name ≠ "__proto__") (hvalue : '=' ∉ value.toList)
    (htrimmed : trim value = value) : readPart m (name ++ "=" ++ value) = m.set name value := by
  have hjoin : name ++ "=" ++ value = join '=' [name, value] := by
    rw [← toList_inj]
    unfold join
    simp [List.intercalate]
  have hsplit : split '=' (name ++ "=" ++ value) = [name, value] := by
    rw [hjoin]
    refine split_join '=' (cons_ne_nil _ _) ?_
    simp [hname.2, hvalue]
  unfold readPart put
  rw [hsplit]
  simp only [if_neg hname.1, htrim, htrimmed, if_neg hproto]

def partNames : List String := ["sockets", "cores", "threads"]

def partText (p : String × String) : String := p.1 ++ "=" ++ p.2

variable (parts : OrdMap String String)

def writtenParts : List (String × String) :=
  partNames.filterMap fun name => ((parts.get name).filter (· ≠ "")).map fun v => (name, v)

theorem partNames_plain : ∀ name ∈ partNames, (name ≠ "" ∧ '=' ∉ name.toList) ∧ trim name = name ∧
    name ≠ "__proto__" ∧ ',' ∉ name.toList := by
  decide

theorem topology_payload :
    cpuLimitToPayload (some (.topology (parts.get "sockets") (parts.get "cores") (parts.get "threads"))) =
      if writtenParts parts = [] then none else some (join ',' ((writtenParts parts).map partText)) := by
  have hpush : ∀ name value,
      pushPart name value = ((value.filter (· ≠ "")).map fun v => (name, v)).toList.map partText := by
    intro name value
    unfold pushPart
    cases value.filter (· ≠ "") <;> rfl
  have hparts : pushPart "sockets" (parts.get "sockets") ++ pushPart "cores" (parts.get "cores") ++
      pushPart "threads" (parts.get "threads") = (writtenParts parts).map partText := by
    simp only [writtenParts, partNames, hpush, filterMap_eq_flatMap_toList, flatMap_cons,
      flatMap_nil, map_append, append_nil, append_assoc]
  unfold cpuLimitToPayload
  simp only [hparts]
  by_cases hnil : writtenParts parts = []
  · rw [hnil]
    rfl
  · rw [if_neg hnil, if_neg (by simpa using hnil)]

theorem sublist_writtenParts : ((writtenParts parts).map (·.1)).Sublist partNames := by
  have hsub : ∀ (l : List String) (g : String → Option String),
      ((l.filterMap fun name => (g name).map fun v => (name, v)).map (·.1)).Sublist l := by
    intro l g
    induction l with
    | nil => exact List.Sublist.refl _
    | cons name l ih =>
      cases hg : g name with
      | none =>
        rw [filterMap_cons_none (by rw [hg]; rfl)]
        exact ih.cons name
      | some x =>
        rw [filterMap_cons_some (b := (name, x)) (by rw [hg]; rfl), map_cons]
        exact ih.cons_cons name
  exact hsub partNames _

theorem get_of_writtenParts {parts : OrdMap String String} {p : String × String}
    (h : p ∈ writtenParts parts) : p ∈ parts ∧ p.2 ≠ "" := by
  obtain ⟨name, -, hname⟩ := List.mem_filterMap.mp h
  obtain ⟨x, hx, rfl⟩ := Option.map_eq_some_iff.mp hname
  obtain ⟨hget, hne⟩ := Option.filter_eq_some_iff.mp hx
  exact ⟨OrdMap.mem_of_get hget, by simpa using hne⟩

theorem readParts_partText {ps : List (String × String)} (hne : ps ≠ [])
    (hsub : (ps.map (·.1)).Sublist partNames)
    (hplain : ∀ p ∈ ps, PlainValue p.2) :
    (split ',' (join ',' (ps.map partText))).foldl readPart [] = ps := by
  have hin : ∀ p ∈ ps, p.1 ∈ partNames := fun p hp => hsub.subset (mem_map_of_mem hp)
  rw [split_join ',' (by simpa using hne), foldl_map]
  · have hfold : ∀ (qs : List (String × String)) (m : OrdMap String String), (∀ p ∈ qs, p ∈ ps) →
        qs.foldl (fun m p => readPart m (partText p)) m = qs.foldl (fun m p => m.set p.1 p.2) m := by
      intro qs
      induction qs with
      | nil => exact fun m _ => rfl
      | cons p qs ih =>
        intro m hqs
        have hp := hqs p mem_cons_self
        obtain ⟨hname, htrim, hproto, -⟩ := partNames_plain p.1 (hin p hp)
        have hread : readPart m (partText p) = m.set p.1 p.2 :=
          readPart_part m hname htrim hproto (hplain p hp).equals (hplain p hp).trimmed
        rw [foldl_cons, foldl_cons, hread, ih _ fun q hq => hqs q (mem_cons_of_mem _ hq)]
    rw [hfold ps [] fun p hp => hp]
    have hnodup : partNames.Nodup := by decide
    exact OrdMap.ofList_eq_self (hnodup.sublist hsub)
  · intro x hx
    obtain ⟨p, hp, rfl⟩ := List.mem_map.mp hx
    simp only [partText, String.toList_append, mem_append, not_or]
    exact ⟨⟨(partNames_plain p.1 (hin p hp)).2.2.2, by decide⟩, (hplain p hp).comma⟩

theorem writtenParts_self {ps : List (String × String)} (hsub : (ps.map (·.1)).Sublist partNames)
    (hplain : ∀ p ∈ ps, PlainValue p.2) : writtenParts ps = ps := by
  have hget : ∀ name, (OrdMap.get ps name).filter (· ≠ "") = OrdMap.get ps name := by
    intro name
    cases hg : OrdMap.get ps name with
    | none => rfl
    | some value =>
      have hvalue := (hplain _ (OrdMap.mem_of_get hg)).ne_empty
      simp [hvalue]
  have heach : writtenParts ps = partNames.filterMap fun name => (OrdMap.get ps name).map fun v =>
    (name, v) := by
    refine filterMap_congr fun name _ => ?_
    rw [hget]
  rw [heach, filterMap_get hsub (by decide)]

theorem topology_kept_iff {v : String} {parts : OrdMap String String}
    (hparts : parts = (split ',' v).foldl readPart []) :
    cpuLimitToPayload
      (some (.topology (parts.get "sockets") (parts.get "cores") (parts.get "threads"))) = some v ↔
      TopologyKept v := by
  rw [topology_payload]
  constructor
  · intro hv
    split_ifs at hv with hnil
    refine ⟨writtenParts parts, hnil, sublist_writtenParts parts, fun p hp => ?_, (Option.some.inj hv).symm⟩
    obtain ⟨hmem, hne⟩ := get_of_writtenParts hp
    obtain ⟨hcomma, hequals, htrim⟩ := plain_of_read (hparts ▸ hmem)
    exact ⟨hne, hcomma, hequals, htrim⟩
  · rintro ⟨ps, hne, hsub, hplain, hv⟩
    have hps : parts = ps := by
      rw [hparts, hv]
      exact readParts_partText hne hsub hplain
    rw [hps, writtenParts_self hsub hplain, if_neg hne, hv]
    rfl

theorem cpu_kept_iff : cpuLimitToPayload (parseCpuLimit (some v)) = some v ↔ CpuKept v := by
  by_cases hempty : v = ""
  · subst hempty
    refine iff_of_false (nofun) ?_
    rintro (hset | hnan | hprinted | ⟨t, ht, -⟩)
    · exact nomatch hset
    · exact nomatch hnan
    · exact hprinted.ne_nil rfl
    · exact nomatch ht
  · have hfilter : (some v).filter (· ≠ "") = some v := by simp [hempty]
    unfold parseCpuLimit CpuKept
    rw [hfilter, Option.map_some]
    split_ifs with hequals hset
    · exact topology_kept_iff rfl
    · exact iff_of_true rfl (.inl hset)
    · rw [or_iff_right hset, ← number_kept_iff]
      unfold parseNumber
      rw [hfilter]
      rfl

end IncusCloud.Forms
