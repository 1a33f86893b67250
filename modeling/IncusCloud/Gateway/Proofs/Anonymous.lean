import IncusCloud.Gateway.Anonymous
import Mathlib.Tactic.IntervalCases

/-!
# Anonymous callers

What is relayed for nobody is the greeting or the documentation, as the cluster reads the target. A
text without the escapes of `.`, `/` and `\` decodes segment by segment, and no segment turns into
`.` or `..`.
-/

namespace IncusCloud.Gateway

open Lib List Option

variable {s x y : List Char} {ch a b : Char} {g : GatewayDeps} {req : Incoming} {route : Route} {adm : Admitted}

/-! ### Escapes -/

def lowerDigit (n : ℕ) : Char := "0123456789abcdef".toList.getD n '0'

def escapeOf (ch : Char) : List Char := ['%', lowerDigit (ch.toNat / 16), lowerDigit (ch.toNat % 16)]

def Escaped (ch : Char) (s : List Char) : Prop := escapeOf ch <:+: s.map Char.toLower

theorem Escaped.mono (h : Escaped ch x) (hx : x <:+: s) : Escaped ch s :=
  List.IsInfix.trans h (List.IsInfix.map Char.toLower hx)

theorem toLower_of_hexVal {n : ℕ} (h : hexVal ch = some n) :
    n < 16 ∧ ch.toLower = lowerDigit n := by
  have hch : ch = Char.ofNat ch.toNat := (Char.ofNat_toNat ch).symm
  have hle : ∀ c d : Char, c ≤ d ↔ c.toNat ≤ d.toNat := fun c d => Iff.rfl
  unfold hexVal at h
  simp only [hle] at h
  split_ifs at h with hdigit hupper hlower
  · obtain rfl := some.inj h
    have hlo : 48 ≤ ch.toNat := hdigit.1
    have hhi : ch.toNat ≤ 57 := hdigit.2
    rw [hch]
    interval_cases ch.toNat <;> decide
  · obtain rfl := some.inj h
    have hlo : 65 ≤ ch.toNat := hupper.1
    have hhi : ch.toNat ≤ 70 := hupper.2
    rw [hch]
    interval_cases ch.toNat <;> decide
  · obtain rfl := some.inj h
    have hlo : 97 ≤ ch.toNat := hlower.1
    have hhi : ch.toNat ≤ 102 := hlower.2
    rw [hch]
    interval_cases ch.toNat <;> decide

theorem Escaped.head {hi lo : ℕ} (ha : hexVal a = some hi) (hb : hexVal b = some lo)
    (h : Char.ofNat (16 * hi + lo) = ch) : Escaped ch ('%' :: a :: b :: s) := by
  obtain ⟨hhi, ha⟩ := toLower_of_hexVal ha
  obtain ⟨hlo, hb⟩ := toLower_of_hexVal hb
  have hvalid : (16 * hi + lo).isValidChar := .inl (by omega)
  have hval : ch.toNat = 16 * hi + lo := by
    rw [← h, Char.ofNat, dif_pos hvalid]
    rfl
  have hfirst : (16 * hi + lo) / 16 = hi := by omega
  have hsecond : (16 * hi + lo) % 16 = lo := by omega
  have hlower : ('%' :: a :: b :: s).map Char.toLower = escapeOf ch ++ s.map Char.toLower := by
    unfold escapeOf
    rw [hval, hfirst, hsecond, map_cons, map_cons, map_cons, ha, hb]
    rfl
  unfold Escaped
  rw [hlower]
  exact (prefix_append _ _).isInfix

/-! ### Decoding -/

def Stray (ch : Char) (s : List Char) : Prop :=
  ∀ a b t, ch = '%' → s = a :: b :: t → hexVal a = none ∨ hexVal b = none

theorem decodeOnce_escape {hi lo : ℕ} (ha : hexVal a = some hi) (hb : hexVal b = some lo) :
    decodeOnce ('%' :: a :: b :: s) = Char.ofNat (16 * hi + lo) :: decodeOnce s := by
  rw [decodeOnce]
  simp only [ha, hb]

theorem decodeOnce_stray (h : Stray ch s) : decodeOnce (ch :: s) = ch :: decodeOnce s := by
  rw [decodeOnce.eq_def]
  split
  · rename_i heq
    cases heq
  · rename_i a b t heq
    obtain ⟨rfl, rfl⟩ := List.cons.inj heq
    rcases h a b t rfl rfl with hnone | hnone
    · simp [hnone]
    · simp only [hnone]
      split
      · rename_i hsome
        cases hsome
      · rfl
  · rename_i heq
    obtain ⟨rfl, rfl⟩ := List.cons.inj heq
    rfl

theorem decodeOnce_induction {P : List Char → Prop} (nil : P [])
    (escape : ∀ a b hi lo s, hexVal a = some hi → hexVal b = some lo → P s → P ('%' :: a :: b :: s))
    (stray : ∀ ch s, Stray ch s → P s → P (ch :: s)) (s : List Char) : P s := by
  induction hn : s.length using Nat.strong_induction_on generalizing s with
  | _ n ih =>
  subst hn
  match s with
  | [] => exact nil
  | ch :: s =>
    by_cases hstray : Stray ch s
    · exact stray ch s hstray (ih s.length (by simp) s rfl)
    · unfold Stray at hstray
      push Not at hstray
      obtain ⟨a, b, t, rfl, rfl, ha, hb⟩ := hstray
      obtain ⟨hi, hhi⟩ := Option.ne_none_iff_exists'.mp ha
      obtain ⟨lo, hlo⟩ := Option.ne_none_iff_exists'.mp hb
      exact escape a b hi lo t hhi hlo (ih t.length (by simp; omega) t rfl)

theorem mem_of_mem_decodeOnce (hno : ¬ Escaped ch s) (h : ch ∈ decodeOnce s) : ch ∈ s := by
  induction s using decodeOnce_induction with
  | nil => exact h
  | escape a b hi lo s hhi hlo ih =>
    rw [decodeOnce_escape hhi hlo, mem_cons] at h
    rcases h with h | h
    · exact absurd (Escaped.head hhi hlo h.symm) hno
    · have hin := ih (fun hs => hno (hs.mono ⟨['%', a, b], [], by simp⟩)) h
      simp [hin]
  | stray c s hc ih =>
    rw [decodeOnce_stray hc, mem_cons] at h
    rcases h with rfl | h
    · exact mem_cons_self
    · exact mem_cons_of_mem c (ih (fun hs => hno (hs.mono ⟨[c], [], by simp⟩)) h)

theorem decodeOnce_dots (hno : ¬ Escaped '.' s) (h : ∀ ch ∈ decodeOnce s, ch = '.') : decodeOnce s = s := by
  induction s using decodeOnce_induction with
  | nil => rfl
  | escape a b hi lo s hhi hlo ih =>
    rw [decodeOnce_escape hhi hlo] at h
    exact absurd (Escaped.head hhi hlo (h _ mem_cons_self)) hno
  | stray c s hc ih =>
    rw [decodeOnce_stray hc] at h ⊢
    rw [ih (fun hs => hno (hs.mono ⟨[c], [], by simp⟩)) fun ch hch => h ch (mem_cons_of_mem c hch)]

theorem decodeOnce_append_slash (x y : List Char) :
    decodeOnce (x ++ '/' :: y) = decodeOnce x ++ '/' :: decodeOnce y := by
  have hslash : hexVal '/' = none := by decide
  induction x using decodeOnce_induction with
  | nil => exact decodeOnce_stray (by rintro a b t ⟨⟩)
  | escape a b hi lo s hhi hlo ih =>
    rw [decodeOnce_escape hhi hlo, cons_append, cons_append, cons_append,
      decodeOnce_escape hhi hlo, ih, cons_append]
  | stray c s hc ih =>
    have hstray : Stray c (s ++ '/' :: y) := by
      intro a b t hpercent heq
      match s with
      | [] =>
        obtain ⟨rfl, -⟩ := List.cons.inj heq
        exact .inl hslash
      | [d] =>
        obtain ⟨-, htail⟩ := List.cons.inj heq
        obtain ⟨rfl, -⟩ := List.cons.inj htail
        exact .inr hslash
      | d :: e :: u =>
        obtain ⟨rfl, htail⟩ := List.cons.inj heq
        obtain ⟨rfl, -⟩ := List.cons.inj htail
        exact hc d e u hpercent rfl
    rw [cons_append, decodeOnce_stray hstray, decodeOnce_stray hc, ih, cons_append]

/-! ### Segments -/

theorem infix_of_mem_splitOn (h : x ∈ s.splitOn ch) : x <:+: s := by
  induction hn : s.length using Nat.strong_induction_on generalizing s with
  | _ n ih =>
  subst hn
  rcases cut_cases ch s with ⟨hs, -⟩ | ⟨y, z, hy, rfl, -⟩
  · rw [splitOn_eq_singleton hs, mem_singleton] at h
    exact h ▸ infix_rfl
  · rw [splitOn_append_cons_self_of_not_mem hy, mem_cons] at h
    rcases h with rfl | h
    · exact (prefix_append x _).isInfix
    · exact (ih z.length (by simp; omega) h rfl).trans ⟨y ++ [ch], [], by simp⟩

theorem splitOn_decodeOnce (hno : ¬ Escaped '/' s) :
    (decodeOnce s).splitOn '/' = (s.splitOn '/').map decodeOnce := by
  induction hn : s.length using Nat.strong_induction_on generalizing s with
  | _ n ih =>
  subst hn
  rcases cut_cases '/' s with ⟨hs, -⟩ | ⟨x, y, hx, rfl, -⟩
  · have hdecoded : '/' ∉ decodeOnce s := fun h => hs (mem_of_mem_decodeOnce hno h)
    rw [splitOn_eq_singleton hs, splitOn_eq_singleton hdecoded]
    rfl
  · have hdecoded : '/' ∉ decodeOnce x := fun h =>
      hx (mem_of_mem_decodeOnce (fun he => hno (he.mono (prefix_append x _).isInfix)) h)
    have hy : ¬ Escaped '/' y := fun he => hno (he.mono ⟨x ++ ['/'], [], by simp⟩)
    rw [decodeOnce_append_slash, splitOn_append_cons_self_of_not_mem hdecoded,
      splitOn_append_cons_self_of_not_mem hx, ih y.length (by simp; omega) hy rfl, map_cons]

theorem hasDots_append {start : Bool} (hx : '/' ∉ x) (h : hasDots start (x ++ '/' :: y) = false) :
    (start = true → isDots x = false) ∧ hasDots true y = false := by
  constructor
  · rintro rfl
    rw [Bool.eq_false_iff]
    intro hdots
    simp only [isDots, Bool.or_eq_true, decide_eq_true_eq] at hdots
    rcases hdots with rfl | rfl
    · simp [hasDots, startsWithDots] at h
    · simp [hasDots, startsWithDots] at h
  · induction x generalizing start with
    | nil =>
      rw [nil_append, hasDots, Bool.or_eq_false_iff] at h
      exact h.2
    | cons ch x ih =>
      rw [cons_append, hasDots, Bool.or_eq_false_iff] at h
      exact ih (fun hm => hx (mem_cons_of_mem ch hm)) h.2

theorem isDots_of_hasDots (h : hasDots true s = false) : ∀ x ∈ s.splitOn '/', isDots x = false := by
  induction hn : s.length using Nat.strong_induction_on generalizing s with
  | _ n ih =>
  subst hn
  rcases cut_cases '/' s with ⟨hs, -⟩ | ⟨x, y, hx, rfl, -⟩
  · rw [splitOn_eq_singleton hs]
    intro x hx
    rw [mem_singleton.mp hx, Bool.eq_false_iff]
    intro hdots
    simp only [isDots, Bool.or_eq_true, decide_eq_true_eq] at hdots
    rcases hdots with rfl | rfl
    · exact absurd h (by decide)
    · exact absurd h (by decide)
  · obtain ⟨hfirst, hrest⟩ := hasDots_append hx h
    rw [splitOn_append_cons_self_of_not_mem hx]
    exact forall_mem_cons.mpr ⟨hfirst rfl, ih y.length (by simp; omega) hrest rfl⟩

theorem isDots_decodeOnce (hno : ¬ Escaped '.' s) (h : isDots s = false) : isDots (decodeOnce s) = false := by
  rw [Bool.eq_false_iff] at h ⊢
  intro hdots
  have hall : ∀ ch ∈ decodeOnce s, ch = '.' := by
    simp only [isDots, Bool.or_eq_true, decide_eq_true_eq] at hdots
    rcases hdots with heq | heq
    · simp [heq]
    · simp [heq]
  rw [decodeOnce_dots hno hall] at hdots
  exact h hdots

theorem removeDots_of_none {segments : List (List Char)} (h : ∀ x ∈ segments, isDots x = false) :
    removeDots segments = segments := by
  have hfold : ∀ (out rest : List (List Char)), (∀ x ∈ rest, isDots x = false) →
      rest.foldl (fun out s => if s = ['.'] then out else if s = ['.', '.'] then out.dropLast else out ++ [s])
        out = out ++ rest := by
    intro out rest
    induction rest generalizing out with
    | nil => simp
    | cons x rest ih =>
      intro hrest
      obtain ⟨hx, hrest⟩ := forall_mem_cons.mp hrest
      simp only [isDots, Bool.or_eq_false_iff, decide_eq_false_iff_not] at hx
      rw [foldl_cons, if_neg hx.1, if_neg hx.2, ih _ hrest, append_assoc, singleton_append]
  unfold removeDots
  rw [hfold [] segments h, nil_append]
  split_ifs with hlast
  · obtain ⟨x, hx, hdots⟩ := (Option.any_eq_true _ _).mp hlast
    rw [h x (mem_of_getLast? hx)] at hdots
    cases hdots
  · rfl

/-! ### Targets -/

variable {target : String}

theorem resolved_of_not_ambiguous (h : ambiguous target = false) :
    resolved target = (((cut '?' target.toList).1.splitOn '/').map decodeOnce).tail := by
  unfold ambiguous at h
  unfold resolved
  generalize (cut '?' target.toList).1 = path at h ⊢
  simp only [Bool.or_eq_false_iff, any_cons, any_nil, decide_eq_false_iff_not] at h
  obtain ⟨⟨hdots, hdot, hslash, hback, -⟩, hraw⟩ := h
  replace hdot : ¬ Escaped '.' path := hdot
  replace hslash : ¬ Escaped '/' path := hslash
  replace hback : ¬ Escaped '\\' path := hback
  have hplain : '\\' ∉ decodeOnce path := by
    intro hm
    have hin := mem_of_mem_decodeOnce hback hm
    simp [hin] at hraw
  have hsame : (decodeOnce path).map slashed = decodeOnce path := by
    refine (map_congr_left fun ch hch => ?_).trans (map_id _)
    exact if_neg fun heq : ch = '\\' => hplain (heq ▸ hch)
  rw [hsame, splitOn_decodeOnce hslash]
  refine removeDots_of_none fun x hx => ?_
  obtain ⟨y, hy, rfl⟩ := List.mem_map.mp (mem_of_mem_tail hx)
  have hinfix : y <:+: path := infix_of_mem_splitOn hy
  exact isDots_decodeOnce (fun he => hdot (he.mono hinfix)) (isDots_of_hasDots hdots y hy)

theorem resolved_documentation (hdoc : isDocumentation target = true)
    (h : ambiguous target = false) : ∃ below, resolved target = "documentation".toList :: below := by
  rw [resolved_of_not_ambiguous h]
  simp only [isDocumentation, Bool.and_eq_true, isPrefixOf_iff_prefix] at hdoc
  obtain ⟨⟨rest, hrest⟩, hend⟩ := hdoc
  have hlength : "/documentation".length = "/documentation".toList.length := rfl
  rw [← hrest, hlength, drop_left] at hend
  have hno : '?' ∉ "/documentation".toList := by decide
  have hname : '/' ∉ "documentation".toList := by decide
  have hsplit : "/documentation".toList = [] ++ '/' :: "documentation".toList := by decide
  have hsame : decodeOnce "documentation".toList = "documentation".toList := by decide
  rw [← hrest]
  match rest, hend with
  | [], _ =>
    rw [append_nil, cut_of_not_mem hno, hsplit,
      splitOn_append_cons_self_of_not_mem not_mem_nil, splitOn_eq_singleton hname]
    exact ⟨[], by rw [map_cons, tail_cons, map_cons, hsame, map_nil]⟩
  | ch :: rest, hend =>
    simp only [Bool.or_eq_true, decide_eq_true_eq] at hend
    rcases hend with rfl | rfl
    · have hcut : (cut '?' ("/documentation".toList ++ '/' :: rest)).1 =
          "/documentation".toList ++ '/' :: (cut '?' rest).1 := by
        rcases cut_cases '?' rest with ⟨hr, hcut⟩ | ⟨y, z, hy, rfl, hcut⟩
        · have hall : '?' ∉ "/documentation".toList ++ '/' :: rest := by
            simp only [mem_append, mem_cons, not_or]
            exact ⟨hno, by decide, hr⟩
          rw [cut_of_not_mem hall, hcut]
        · have hall : '?' ∉ "/documentation".toList ++ '/' :: y := by
            simp only [mem_append, mem_cons, not_or]
            exact ⟨hno, by decide, hy⟩
          have hassoc : "/documentation".toList ++ '/' :: (y ++ '?' :: z) =
              ("/documentation".toList ++ '/' :: y) ++ '?' :: z := by simp
          rw [hassoc, cut_append hall, hcut]
      rw [hcut, hsplit, append_assoc, cons_append,
        splitOn_append_cons_self_of_not_mem not_mem_nil,
        splitOn_append_cons_self_of_not_mem hname]
      exact ⟨_, by rw [map_cons, tail_cons, map_cons, hsame]⟩
    · rw [cut_append hno, hsplit, splitOn_append_cons_self_of_not_mem not_mem_nil,
        splitOn_eq_singleton hname]
      exact ⟨[], by rw [map_cons, tail_cons, map_cons, hsame, map_nil]⟩

theorem resolved_greeting
    (h : target = "/1.0" ∨ "/1.0?".toList.isPrefixOf target.toList = true) :
    resolved target = ["1.0".toList] := by
  have hcut : (cut '?' target.toList).1 = "/1.0".toList := by
    rcases h with rfl | h
    · decide
    · obtain ⟨query, hquery⟩ := isPrefixOf_iff_prefix.mp h
      have hsplit : "/1.0?".toList ++ query = "/1.0".toList ++ '?' :: query := by simp
      rw [← hquery, hsplit, cut_append (by decide)]
  unfold resolved
  rw [hcut]
  decide

/-! ### Admission -/

theorem anonymous_of_admits (h : admits g req route = .ok adm) (hnone : adm.principal = none) :
    adm.route = route ∧
      (adm.isUi = true ∨ isAnonymousAllowed (req.method.getD "") route.path = true) := by
  unfold admits at h
  simp only [bind_eq_ok, need_eq_ok] at h
  obtain ⟨row, -, known, -, -, -, principal, -, -, hgate, -, -, access, -, -, -, hadm⟩ := h
  obtain rfl := Except.ok.inj hadm
  refine ⟨rfl, ?_⟩
  replace hnone : principal = none := hnone
  by_contra hnot
  simp only [not_or, Bool.not_eq_true] at hnot
  exact hgate ⟨hnone, hnot.1, .inr hnot.2⟩

/-- An anonymous caller reaches the greeting and the documentation, and nothing else. -/
theorem anonymous_reaches_documentation {t : RelayTarget} (h : serve g req = some (.relayed t))
    (hnone : t.principal = none) :
    t.method = "GET" ∧ resolved t.path = ["1.0".toList] ∨
      (t.method = "GET" ∨ t.method = "HEAD") ∧ ∃ below, resolved t.path = "documentation".toList :: below := by
  obtain ⟨route, -, hserved⟩ := map_eq_some_iff.mp h
  cases hadmits : admits g req route with
  | error r =>
    rw [hadmits] at hserved
    cases hserved
  | ok adm =>
    rw [hadmits] at hserved
    dsimp only at hserved
    split_ifs at hserved with hui hserve
    obtain rfl := Served.relayed.inj hserved
    obtain ⟨hroute, hanonymous⟩ := anonymous_of_admits hadmits hnone
    have hallowed := hanonymous.resolve_left hui
    rw [hroute]
    simp only [isAnonymousAllowed, Bool.or_eq_true, Bool.and_eq_true, decide_eq_true_eq,
      Bool.not_eq_true'] at hallowed
    rcases hallowed with ⟨hmethod, hpath⟩ | ⟨⟨hmethod, hdoc⟩, hclear⟩
    · exact .inl ⟨hmethod, resolved_greeting hpath⟩
    · exact .inr ⟨hmethod, resolved_documentation hdoc hclear⟩

def docsGateway : GatewayDeps where
  publicOrigin := "https://cloud.test"
  clusterDomain := "clusters.test"
  clusters name := .ok (if name = "c1" then some ⟨"1", name, "https://10.0.0.1:8443", .enrolled⟩ else none)
  resolvePrincipal _ _ := .ok none
  check _ _ := .ok false
  ui := false

def docsRequest : Incoming where
  method := some "GET"
  host := some "c1.clusters.test:8443"
  url := some "/documentation/%69ndex.html?next=../1.0"
  authorization := none
  origin := none
  upgrade := false

def docsTarget : RelayTarget :=
  ⟨"https://10.0.0.1:8443", "/documentation/%69ndex.html?next=../1.0", "GET", none, false⟩

theorem serve_docsRequest : serve docsGateway docsRequest = some (.relayed docsTarget) := by decide

theorem anonymous_reaches_documentation_index :
    resolved docsTarget.path = ["documentation".toList, "index.html".toList] ∧
      (docsTarget.method = "GET" ∧ resolved docsTarget.path = ["1.0".toList] ∨
        (docsTarget.method = "GET" ∨ docsTarget.method = "HEAD") ∧
          ∃ below, resolved docsTarget.path = "documentation".toList :: below) :=
  ⟨by decide, anonymous_reaches_documentation serve_docsRequest rfl⟩

end IncusCloud.Gateway
