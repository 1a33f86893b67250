import IncusCloud.Gateway.Relay

/-!
# What a cluster can set on the platform's origin

Plain answers and those whose JSON is rewritten go through `downstreamHeaders`: they set no cookie,
and are no page. An upgrade that is accepted is relayed as it came, cookies included, and the answer
to one that is refused keeps what the cluster says of its page (`clean_iff`).
-/

namespace IncusCloud.Gateway

open Lib List

/-! ### Names -/

theorem toLower_toLower (ch : Char) : ch.toLower.toLower = ch.toLower := by
  have hrange : ¬ (ch.toLower.val ≥ 'A'.val ∧ ch.toLower.val ≤ 'Z'.val) := by
    unfold Char.toLower
    split
    · grind [UInt32.toNat_add, Char.toNat_val]
    · assumption
  exact dif_neg hrange

theorem lower_lower (s : String) : lower (lower s) = lower s := by
  unfold lower
  rw [String.toList_ofList, map_map]
  congr 1
  exact map_congr_left fun ch _ => toLower_toLower ch

variable {k : String}

theorem mem_put {V : Type} {m : OrdMap String V} {v : V} {e : String × V} (h : e ∈ put m k v) :
    e = (k, v) ∨ e ∈ m := by
  unfold put at h
  split_ifs at h
  · exact .inr h
  · exact OrdMap.mem_set h

theorem get_put {V : Type} (m : OrdMap String V) (hk : k ≠ "__proto__") (v : V) (k' : String) :
    (put m k v).get k' = if k' = k then some v else m.get k' := by
  unfold put
  rw [if_neg hk, OrdMap.get_set]

def Lowered (h : Headers) : Prop := ∀ e ∈ h, lower e.1 = e.1

variable {h : Headers}

theorem Lowered.put (hh : Lowered h) (hk : lower k = k) (v : HeaderValue) :
    Lowered (put h k v) := by
  intro e he
  rcases mem_put he with rfl | he
  · exact hk
  · exact hh e he

theorem lowered_addHeaderLine {m : Headers} (hm : Lowered m) (h : RawHeader) : Lowered (addHeaderLine m h) := by
  have hset : ∀ v, Lowered (m.set (lower h.name) v) := by
    intro v e he
    rcases OrdMap.mem_set he with rfl | he
    · exact lower_lower h.name
    · exact hm e he
  have hput : ∀ v, Lowered (put m (lower h.name) v) := hm.put (lower_lower h.name)
  unfold addHeaderLine
  by_cases hcookie : lower h.name = "set-cookie"
  · simp only [if_pos hcookie]
    split
    · exact hset _
    · exact hset _
  · by_cases hsingle : single.contains (lower h.name) = true
    · simp only [if_neg hcookie, if_pos hsingle]
      split_ifs
      · exact hm
      · exact hput _
    · simp only [if_neg hcookie, if_neg hsingle]
      split
      · exact hput _
      · exact hput _

theorem lowered_incomingHeaders (raw : List RawHeader) : Lowered (incomingHeaders raw) := by
  have hfold : ∀ m : Headers, Lowered m → Lowered (raw.foldl addHeaderLine m) := by
    induction raw with
    | nil => exact fun m hm => hm
    | cons h raw ih => exact fun m hm => ih _ (lowered_addHeaderLine hm h)
  exact hfold [] fun e he => nomatch he

/-! ### Plain answers -/

def NoCookie (headers : List (String × String)) : Prop := ∀ h ∈ headers, lower h.1 ≠ "set-cookie"

def Has (headers : List (String × String)) (name value : String) : Prop :=
  ∃ h ∈ headers, lower h.1 = name ∧ h.2 = value

def NoPage (headers : List (String × String)) : Prop :=
  Has headers "x-content-type-options" "nosniff" ∧ Has headers "content-security-policy" "sandbox"

def Safe (h : Headers) : Prop := ∀ e ∈ h, lower e.1 = e.1 ∧ e.1 ≠ "set-cookie"

theorem Safe.put (hh : Safe h) (hk : lower k = k ∧ k ≠ "set-cookie") (v : HeaderValue) :
    Safe (put h k v) := by
  intro e he
  rcases mem_put he with rfl | he
  · exact hk
  · exact hh e he

theorem safe_downstreamHeaders {headers : Headers} (h : Lowered headers) (path : String) :
    Safe (downstreamHeaders headers path) := by
  have hkept : ∀ l m : Headers, Lowered l → Safe m → Safe (l.foldl keepHeader m) := by
    intro l
    induction l with
    | nil => exact fun m _ hm => hm
    | cons e l ih =>
      intro m hl hm
      refine ih _ (fun x hx => hl x (mem_cons_of_mem e hx)) ?_
      unfold keepHeader
      split_ifs with hdrop
      · exact hm
      · simp only [Bool.or_eq_true, decide_eq_true_iff, not_or] at hdrop
        exact hm.put ⟨hl e mem_cons_self, hdrop.2⟩ e.2
  have hsafe := (hkept headers [] h fun e he => nomatch he).put
    (k := "x-content-type-options") (by decide) (.text "nosniff")
  unfold downstreamHeaders
  split_ifs
  · exact hsafe
  · exact hsafe.put (by decide) _

theorem Safe.noCookie (hh : Safe h) : NoCookie (headerLines h) := by
  intro line hline
  obtain ⟨e, he, hline⟩ := mem_flatMap.mp hline
  have hname : line.1 = e.1 := by
    cases hv : e.2 with
    | text v =>
      rw [hv] at hline
      rw [mem_singleton.mp hline]
    | list l =>
      rw [hv] at hline
      obtain ⟨v, -, rfl⟩ := List.mem_map.mp hline
      rfl
  obtain ⟨hlower, hcookie⟩ := hh e he
  rw [hname, hlower]
  exact hcookie

theorem has_of_get {name value : String} (hget : h.get name = some (.text value))
    (hname : lower name = name) : Has (headerLines h) name value := by
  refine ⟨(name, value), ?_, hname, rfl⟩
  exact mem_flatMap.mpr ⟨(name, .text value), OrdMap.mem_of_get hget, mem_singleton.mpr rfl⟩

theorem get_downstreamHeaders (headers : Headers) (path : String) :
    (downstreamHeaders headers path).get "x-content-type-options" = some (.text "nosniff") ∧
      (isDocumentation path = false →
        (downstreamHeaders headers path).get "content-security-policy" = some (.text "sandbox")) := by
  unfold downstreamHeaders
  split_ifs with hdoc
  · refine ⟨?_, fun hnot => ?_⟩
    · rw [get_put _ (by decide), if_pos rfl]
    · rw [hdoc] at hnot
      contradiction
  · refine ⟨?_, fun _ => ?_⟩
    · rw [get_put _ (by decide), if_neg (by decide), get_put _ (by decide), if_pos rfl]
    · rw [get_put _ (by decide), if_pos rfl]

theorem relayRequest_clean (a : Answer) (path : String) : NoCookie (relayRequest a path) ∧
    (isDocumentation path = true ∨ NoPage (relayRequest a path)) := by
  refine ⟨(safe_downstreamHeaders (lowered_incomingHeaders a.rawHeaders) path).noCookie, ?_⟩
  obtain ⟨hsniff, hpolicy⟩ := get_downstreamHeaders (incomingHeaders a.rawHeaders) path
  cases hdoc : isDocumentation path with
  | true => exact .inl rfl
  | false => exact .inr ⟨has_of_get hsniff (by decide), has_of_get (hpolicy hdoc) (by decide)⟩

theorem forward_clean (a : Answer) (path : String) (length : ℕ) : NoCookie (forward a path length) ∧
    (isDocumentation path = true ∨ NoPage (forward a path length)) := by
  unfold forward
  split_ifs
  · have hsafe := safe_downstreamHeaders (lowered_incomingHeaders a.rawHeaders) path
    refine ⟨(hsafe.put (by decide) _).noCookie, ?_⟩
    obtain ⟨hsniff, hpolicy⟩ := get_downstreamHeaders (incomingHeaders a.rawHeaders) path
    cases hdoc : isDocumentation path with
    | true => exact .inl rfl
    | false =>
      refine .inr ⟨has_of_get ?_ (by decide), has_of_get ?_ (by decide)⟩
      · rw [get_put _ (by decide), if_neg (by decide), hsniff]
      · rw [get_put _ (by decide), if_neg (by decide), hpolicy hdoc]
  · exact relayRequest_clean a path

/-! ### All paths -/

/-- What a cluster's answer must be on the platform's origin. -/
def Clean (r : Relay) (path : String) : Prop :=
  NoCookie (r.headers path) ∧ (isDocumentation path = true ∨ r.answer.status = 101 ∨ NoPage (r.headers path))

def rawLines (a : Answer) : List (String × String) := a.rawHeaders.map fun h => (h.name, h.value)

/-- When an answer is relayed so: an upgrade must set no cookie itself, and a refusal must say
itself that it is no page. -/
def Clears (path : String) : Relay → Prop
  | .plain _ | .rewritten _ _ => True
  | .accepted a _ => NoCookie (rawLines a)
  | .refused a => isDocumentation path = true ∨ a.status = 101 ∨ NoPage (rawLines a)

theorem has_refused {a : Answer} {name value : String}
    (hname : name ∉ ["transfer-encoding", "connection", "set-cookie"]) :
    Has (refused a) name value ↔ Has (rawLines a) name value := by
  constructor
  · rintro ⟨h, hh, hlower, hvalue⟩
    rcases mem_append.mp hh with hh | hh
    · obtain ⟨x, hx, rfl⟩ := List.mem_map.mp hh
      exact ⟨_, mem_map_of_mem (mem_filter.mp hx).1, hlower, hvalue⟩
    · rw [mem_singleton.mp hh] at hlower
      have hclose : lower "connection" = "connection" := by decide
      rw [← hlower, hclose] at hname
      exact absurd (by decide) hname
  · rintro ⟨h, hh, hlower, hvalue⟩
    obtain ⟨x, hx, rfl⟩ := List.mem_map.mp hh
    refine ⟨_, mem_append_left _ (mem_map_of_mem (mem_filter.mpr ⟨hx, ?_⟩)), hlower, hvalue⟩
    unfold dropped
    rw [hlower]
    simpa using hname

theorem noCookie_refused (a : Answer) : NoCookie (refused a) := by
  intro h hh
  rcases mem_append.mp hh with hh | hh
  · obtain ⟨x, hx, rfl⟩ := List.mem_map.mp hh
    have hkept := (mem_filter.mp hx).2
    intro hcookie
    unfold dropped at hkept
    rw [hcookie] at hkept
    exact absurd hkept (by decide)
  · rw [mem_singleton.mp hh]
    decide

/-- **What a cluster can set**: an answer is clean exactly when it is no upgrade, or an accepted one
without cookies, or a refused one that is documentation or says itself that it is no page. -/
theorem clean_iff (r : Relay) (path : String) : Clean r path ↔ Clears path r := by
  cases r with
  | plain a =>
    obtain ⟨hcookie, hpage⟩ := relayRequest_clean a path
    exact iff_of_true ⟨hcookie, hpage.imp_right .inr⟩ trivial
  | rewritten a length =>
    obtain ⟨hcookie, hpage⟩ := forward_clean a path length
    exact iff_of_true ⟨hcookie, hpage.imp_right .inr⟩ trivial
  | accepted a h => exact and_iff_left (.inr (.inl h))
  | refused a =>
    have hpage : NoPage (refused a) ↔ NoPage (rawLines a) :=
      and_congr (has_refused (by decide)) (has_refused (by decide))
    exact (and_iff_right (noCookie_refused a)).trans (or_congr_right (or_congr_right hpage))

def planted : Answer := ⟨101, [⟨"Set-Cookie", "ic_session=x; Path=/", by decide⟩]⟩

def page : Answer := ⟨404, [⟨"Content-Type", "text/html", by decide⟩]⟩

theorem planted_not_clean : ¬ Clean (.accepted planted rfl) "/1.0/events" ∧ ¬ Clean (.refused page) "/1.0/events" := by
  constructor
  · rintro ⟨hcookie, -⟩
    exact hcookie ("Set-Cookie", "ic_session=x; Path=/") mem_cons_self (by decide)
  · rintro ⟨-, hdoc | hstatus | ⟨⟨h, hh, hlower, -⟩, -⟩⟩
    · exact absurd hdoc (by decide)
    · exact absurd hstatus (by decide)
    · have hnone : ∀ h ∈ refused page, lower h.1 ≠ "x-content-type-options" := by decide
      exact hnone h hh hlower

end IncusCloud.Gateway
