import Mathlib.Data.List.Nodup
import IncusCloud.Auth.Session

/-!
# A refresh token is used once

Whoever calls `tokens.refresh` holds the session's lock and has read the row under it, so the token
it calls with has not been used: a request that used one has stored its successor, or deleted the
row, before it gave the lock away. What a request returns it has read while it ran, or written.
-/

namespace IncusCloud.Auth

open Lib Option

variable {Token : Type}
  {s : Sessions Token} {phase : Phase Token} {i : ℕ} {r : SessionRequest Token}

/-! ### What a step can do -/

/-- What the phases of `freshSession` lead to while the row, the lock and the history stay. -/
inductive Leads (s : Sessions Token) : Phase Token → Phase Token → Prop
  | gone : Leads s .started (.returned none (s.history.length - 1))
  | aged : Leads s .started .aged
  | fresh {row : Session Token} (h : s.row = some row) :
      Leads s .started (.returned (some row) (s.history.length - 1))
  | waiting : Leads s .started .waiting
  | absent : Leads s .locked (.finishing none)
  | current {cur : Session Token} (h : s.row = some cur) : Leads s .locked (.current cur)
  | still {cur : Session Token} : Leads s (.current cur) (.finishing (some cur))
  | noToken {cur : Session Token} : Leads s (.current cur) .deleting
  | refreshed {cur : Session Token} {set : TokenSet Token} {token : Token}
      (h : set.refreshToken = some token) (hnew : token ∉ s.used) :
      Leads s (.refreshing cur) (.updating cur set)
  | failed {cur : Session Token} : Leads s (.refreshing cur) .deleting
  | updateNone {cur : Session Token} {set : TokenSet Token} (h : s.row = none) :
      Leads s (.updating cur set) (.finishing none)
  | updated {cur row : Session Token} {set : TokenSet Token} {now : Int} :
      Leads s (.updating cur set) (.updated (row.refreshed cur set now))
  | deleteNone (h : s.row = none) : Leads s .deleting (.finishing none)
  | deleted : Leads s .deleting .deleted

inductive Move (s : Sessions Token) : Sessions Token → Prop
  | arrive : Move s { s with requests := s.requests ++ [⟨.started, s.history.length - 1⟩] }
  | go {i : ℕ} {r : SessionRequest Token} {phase : Phase Token} (h : s.requests[i]? = some r)
      (hgo : Leads s r.phase phase) : Move s (s.go i r phase)
  | deleteAged {i began : ℕ} (h : s.requests[i]? = some ⟨.aged, began⟩) :
      Move s ((s.setRow none).goReturn i ⟨.aged, began⟩ none)
  | acquireLock {i began : ℕ} (h : s.requests[i]? = some ⟨.waiting, began⟩)
      (hfree : s.lock = .free) : Move s { s.go i ⟨.waiting, began⟩ .locked with lock := .held i }
  | refresh {i began : ℕ} {cur : Session Token} {token : Token}
      (h : s.requests[i]? = some ⟨.current cur, began⟩) (htoken : cur.refreshToken = some token) :
      Move s { s.go i ⟨.current cur, began⟩ (.refreshing cur) with used := s.used ++ [token] }
  | commitUpdated {i began : ℕ} {new : Session Token}
      (h : s.requests[i]? = some ⟨.updated new, began⟩) :
      Move s { (s.setRow (some new)).goReturn i ⟨.updated new, began⟩ (some new) with lock := .free }
  | commitDeleted {i began : ℕ} (h : s.requests[i]? = some ⟨.deleted, began⟩) :
      Move s { (s.setRow none).goReturn i ⟨.deleted, began⟩ none with lock := .free }
  | commitNothing {i began : ℕ} {result : Option (Session Token)}
      (h : s.requests[i]? = some ⟨.finishing result, began⟩) :
      Move s { s.goReturn i ⟨.finishing result, began⟩ result with lock := .free }
  | signOut : Move s (s.setRow none)
  | foreignLock (h : s.lock = .free) : Move s { s with lock := .foreign }
  | foreignUnlock (h : s.lock = .foreign) : Move s { s with lock := .free }

namespace Sessions

def ReturnsNew (s : Sessions Token) : SessionAction Token → Prop
  | .refreshed _ set => ∃ token, set.refreshToken = some token ∧ token ∉ s.used
  | _ => True

variable {t : Sessions Token}

theorem step_move {a : SessionAction Token} (hok : s.ReturnsNew a)
    (hs : s.step a = some t) : Move s t := by
  cases a with
  | arrive =>
    obtain rfl := some.inj hs
    exact .arrive
  | select i now =>
    dsimp only [step] at hs
    split at hs
    · rename_i began hi
      obtain rfl := some.inj hs
      unfold selected
      split
      · exact .go hi .gone
      · rename_i row hrow
        split_ifs
        · exact .go hi .aged
        · exact .go hi (.fresh hrow)
        · exact .go hi .waiting
    · cases hs
  | deleteAged i =>
    dsimp only [step] at hs
    split at hs
    · rename_i began hi
      split_ifs at hs
      obtain rfl := some.inj hs
      exact .deleteAged hi
    · cases hs
  | acquireLock i =>
    dsimp only [step] at hs
    split at hs
    · rename_i began hi hfree
      obtain rfl := some.inj hs
      exact .acquireLock hi hfree
    · cases hs
  | selectCurrent i =>
    dsimp only [step] at hs
    split at hs
    · rename_i began hi
      split at hs
      · obtain rfl := some.inj hs
        exact .go hi .absent
      · rename_i cur hrow
        obtain rfl := some.inj hs
        exact .go hi (.current hrow)
    · cases hs
  | refresh i now =>
    dsimp only [step] at hs
    split at hs
    · rename_i cur began hi
      obtain rfl := some.inj hs
      unfold refreshStep
      split_ifs
      · exact .go hi .still
      · split
        · exact .go hi .noToken
        · rename_i token htoken
          exact .refresh hi htoken
    · cases hs
  | refreshed i set =>
    obtain ⟨token, htoken, hnew⟩ := hok
    dsimp only [step] at hs
    split at hs
    · rename_i cur began hi
      obtain rfl := some.inj hs
      exact .go hi (.refreshed htoken hnew)
    · cases hs
  | refreshFailed i =>
    dsimp only [step] at hs
    split at hs
    · rename_i cur began hi
      obtain rfl := some.inj hs
      exact .go hi .failed
    · cases hs
  | update i now =>
    dsimp only [step] at hs
    split at hs
    · rename_i cur set began hi
      split at hs
      · rename_i hrow
        obtain rfl := some.inj hs
        exact .go hi (.updateNone hrow)
      · obtain rfl := some.inj hs
        exact .go hi .updated
    · cases hs
  | delete i =>
    dsimp only [step] at hs
    split at hs
    · rename_i began hi
      split at hs
      · rename_i hrow
        obtain rfl := some.inj hs
        exact .go hi (.deleteNone hrow)
      · obtain rfl := some.inj hs
        exact .go hi .deleted
    · cases hs
  | commit i =>
    dsimp only [step] at hs
    split at hs
    · rename_i new began hi
      obtain rfl := some.inj hs
      exact .commitUpdated hi
    · rename_i began hi
      obtain rfl := some.inj hs
      exact .commitDeleted hi
    · rename_i result began hi
      obtain rfl := some.inj hs
      exact .commitNothing hi
    · cases hs
  | signOut =>
    dsimp only [step] at hs
    split_ifs at hs
    obtain rfl := some.inj hs
    exact .signOut
  | foreignLock =>
    dsimp only [step] at hs
    split_ifs at hs with h
    obtain rfl := some.inj hs
    exact .foreignLock h
  | foreignUnlock =>
    dsimp only [step] at hs
    split_ifs at hs with h
    obtain rfl := some.inj hs
    exact .foreignUnlock h

end Sessions

/-! ### Who may use a token -/

namespace Phase

def holds : Phase Token → Bool
  | started | aged | waiting | returned _ _ => false
  | _ => true

/-- The request may have used the token of the row, and has not committed. -/
def afterUse : Phase Token → Bool
  | refreshing _ | updating _ _ | updated _ | deleting | deleted => true
  | _ => false

def token : Phase Token → Option Token
  | current cur => cur.refreshToken
  | updating cur set => set.refreshToken <|> cur.refreshToken
  | updated new => new.refreshToken
  | _ => none

theorem holds_of_afterUse (h : phase.afterUse = true) : phase.holds = true := by
  cases phase with
  | refreshing _ => rfl
  | updating _ _ => rfl
  | updated _ => rfl
  | deleting => rfl
  | deleted => rfl
  | _ => cases h

theorem holds_of_token {v : Token} (h : phase.token = some v) : phase.holds = true := by
  cases phase with
  | current _ => rfl
  | updating _ _ => rfl
  | updated _ => rfl
  | _ => cases h

end Phase

theorem Leads.holds {old new : Phase Token} (h : Leads s old new) : new.holds = old.holds := by
  cases h with
  | _ => rfl

theorem Leads.afterUse {old new : Phase Token} (h : Leads s old new)
    (hold : old.afterUse = true) : new.afterUse = true ∨ s.row = none := by
  cases h with
  | updateNone h => exact .inr h
  | deleteNone h => exact .inr h
  | refreshed _ _ => exact .inl rfl
  | failed => exact .inl rfl
  | updated => exact .inl rfl
  | deleted => exact .inl rfl
  | _ => cases hold

namespace Sessions

structure TokensSound (s : Sessions Token) : Prop where
  lock : ∀ (i : ℕ) (r : SessionRequest Token), s.requests[i]? = some r →
    (r.phase.holds = true ↔ s.lock = .held i)
  held : ∀ i : ℕ, s.lock = .held i → i < s.requests.length
  /-- While the row has a token that was used, whoever used it has not committed. -/
  stored : ∀ row v, s.row = some row → row.refreshToken = some v → v ∈ s.used →
    ∃ (i : ℕ) (r : SessionRequest Token), s.requests[i]? = some r ∧ r.phase.afterUse = true
  tokens : ∀ (i : ℕ) (r : SessionRequest Token) (v : Token), s.requests[i]? = some r →
    r.phase.token = some v → v ∉ s.used
  once : s.used.Nodup

theorem TokensSound.holder (h : s.TokensSound) {j : ℕ}
    {q : SessionRequest Token} (hi : s.requests[i]? = some r) (hj : s.requests[j]? = some q)
    (hr : r.phase.holds = true) (hq : q.phase.holds = true) : i = j := by
  have hli := (h.lock i r hi).mp hr
  have hlj := (h.lock j q hj).mp hq
  rw [hli] at hlj
  exact AdvisoryLock.held.inj hlj

theorem TokensSound.unused (h : s.TokensSound)
    {row : Session Token} {v : Token} (hi : s.requests[i]? = some r) (hr : r.phase.holds = true)
    (hbefore : r.phase.afterUse = false) (hrow : s.row = some row) (hv : row.refreshToken = some v) :
    v ∉ s.used := by
  intro hused
  obtain ⟨j, q, hj, hafter⟩ := h.stored row v hrow hv hused
  -- Whoever used it holds the lock too, so it is this request, which is before its use.
  obtain rfl := h.holder hi hj hr (Phase.holds_of_afterUse hafter)
  obtain rfl := some.inj (hi.symm.trans hj)
  rw [hafter] at hbefore
  cases hbefore

theorem TokensSound.leads (h : s.TokensSound) (hi : s.requests[i]? = some r)
    (hgo : Leads s r.phase phase) : ∀ v, phase.token = some v → v ∉ s.used := by
  intro v hv
  generalize hphase : r.phase = old at hgo
  cases hgo with
  | current hrow => exact h.unused hi (by rw [hphase]; rfl) (by rw [hphase]; rfl) hrow hv
  | refreshed htoken hnew =>
    dsimp only [Phase.token] at hv
    rw [htoken] at hv
    obtain rfl := some.inj hv
    exact hnew
  | updated => exact h.tokens i r v hi (by rw [hphase]; exact hv)
  | _ => cases hv

theorem requests_go {k : ℕ} {q : SessionRequest Token}
    (h : (s.go i r phase).requests[k]? = some q) :
    (k = i ∧ q = { r with phase := phase }) ∨ (k ≠ i ∧ s.requests[k]? = some q) :=
  getElem?_set_cases h

theorem getElem?_go
    (h : s.requests[i]? = some r) : (s.go i r phase).requests[i]? = some { r with phase := phase } :=
  List.getElem?_set_self (List.getElem?_eq_some_iff.mp h).1

theorem getElem?_go_ne {k : ℕ} (h : k ≠ i) : (s.go i r phase).requests[k]? = s.requests[k]? :=
  List.getElem?_set_ne fun hik => h hik.symm

theorem length_go : (s.go i r phase).requests.length = s.requests.length := List.length_set

theorem TokensSound.go (h : s.TokensSound) (hi : s.requests[i]? = some r)
    (hgo : Leads s r.phase phase) : (s.go i r phase).TokensSound := by
  refine ⟨?_, ?_, ?_, ?_, h.once⟩
  · intro k q hk
    rcases requests_go hk with ⟨rfl, rfl⟩ | ⟨-, hk⟩
    · rw [hgo.holds]
      exact h.lock k r hi
    · exact h.lock k q hk
  · intro k hk
    rw [length_go]
    exact h.held k hk
  · intro row v hrow hv hused
    obtain ⟨j, q, hj, hafter⟩ := h.stored row v hrow hv hused
    by_cases hji : j = i
    · subst hji
      obtain rfl := some.inj (hi.symm.trans hj)
      rcases hgo.afterUse hafter with hnew | hnone
      · exact ⟨j, _, getElem?_go hi, hnew⟩
      · rw [show s.row = some row from hrow] at hnone
        cases hnone
    · exact ⟨j, q, (getElem?_go_ne hji).trans hj, hafter⟩
  · intro k q v hk hv
    rcases requests_go hk with ⟨rfl, rfl⟩ | ⟨-, hk⟩
    · exact h.leads hi hgo v hv
    · exact h.tokens k q v hk hv

variable {history : List (Option (Session Token))}

theorem TokensSound.commit (h : s.TokensSound)
    (hi : s.requests[i]? = some r) (hholds : r.phase.holds = true) {row : Option (Session Token)} {result : Option (Session Token)} {ended : ℕ}
    (hrow : ∀ new v, row = some new → new.refreshToken = some v → v ∈ s.used →
      r.phase.afterUse = false ∧ s.row = some new) :
    ({ s.go i r (.returned result ended) with row := row, history := history, lock := .free } :
      Sessions Token).TokensSound := by
  refine ⟨?_, nofun, ?_, ?_, h.once⟩
  · intro k q hk
    rcases requests_go hk with ⟨rfl, rfl⟩ | ⟨hne, hk⟩
    · exact ⟨nofun, nofun⟩
    · -- Nobody but the request that commits holds the lock.
      refine ⟨fun hq => ?_, nofun⟩
      exact absurd (h.holder hk hi hq hholds) hne
  · intro new v hnew hv hused
    obtain ⟨hbefore, hold⟩ := hrow new v hnew hv hused
    exact absurd hused (h.unused hi hholds hbefore hold hv)
  · intro k q v hk hv
    rcases requests_go hk with ⟨rfl, rfl⟩ | ⟨hne, hk⟩
    · cases hv
    · exact absurd (h.holder hk hi (Phase.holds_of_token hv) hholds) hne

theorem TokensSound.outside (h : s.TokensSound) (hi : s.requests[i]? = some r)
    (hholds : r.phase.holds = false) (hphase : phase.holds = false) :
    ({ s.go i r phase with row := none, history := history } : Sessions Token).TokensSound := by
  refine ⟨?_, ?_, nofun, ?_, h.once⟩
  · intro k q hk
    rcases requests_go hk with ⟨rfl, rfl⟩ | ⟨-, hk⟩
    · have hlock := h.lock k r hi
      rw [hholds] at hlock
      show phase.holds = true ↔ _
      rw [hphase]
      exact hlock
    · exact h.lock k q hk
  · intro k hk
    rw [length_go]
    exact h.held k hk
  · intro k q v hk hv
    rcases requests_go hk with ⟨rfl, rfl⟩ | ⟨-, hk⟩
    · have hholds' := Phase.holds_of_token hv
      rw [show phase.holds = true from hholds'] at hphase
      cases hphase
    · exact h.tokens k q v hk hv

theorem TokensSound.acquireLock (h : s.TokensSound) {began : ℕ}
    (hi : s.requests[i]? = some ⟨.waiting, began⟩) (hfree : s.lock = .free) :
    ({ s.go i ⟨.waiting, began⟩ .locked with lock := .held i } : Sessions Token).TokensSound := by
  refine ⟨?_, ?_, ?_, ?_, h.once⟩
  · intro k q hk
    rcases requests_go hk with ⟨rfl, rfl⟩ | ⟨hne, hk⟩
    · exact ⟨fun _ => rfl, fun _ => rfl⟩
    · have hlock := h.lock k q hk
      rw [hfree] at hlock
      refine ⟨fun hq => (nomatch hlock.mp hq), fun hheld => ?_⟩
      exact absurd (AdvisoryLock.held.inj hheld).symm hne
  · intro k hk
    obtain rfl := AdvisoryLock.held.inj hk
    rw [length_go]
    exact (List.getElem?_eq_some_iff.mp hi).1
  · intro row v hrow hv hused
    obtain ⟨j, q, hj, hafter⟩ := h.stored row v hrow hv hused
    -- The lock was free: nobody is between a use and its commit.
    have hheld := (h.lock j q hj).mp (Phase.holds_of_afterUse hafter)
    rw [hfree] at hheld
    cases hheld
  · intro k q v hk hv
    rcases requests_go hk with ⟨rfl, rfl⟩ | ⟨-, hk⟩
    · cases hv
    · exact h.tokens k q v hk hv

theorem TokensSound.refresh (h : s.TokensSound) {began : ℕ}
    {cur : Session Token} {token : Token} (hi : s.requests[i]? = some ⟨.current cur, began⟩)
    (htoken : cur.refreshToken = some token) :
    ({ s.go i ⟨.current cur, began⟩ (.refreshing cur) with used := s.used ++ [token] } :
      Sessions Token).TokensSound := by
  refine ⟨?_, ?_, ?_, ?_, ?_⟩
  · intro k q hk
    rcases requests_go hk with ⟨rfl, rfl⟩ | ⟨-, hk⟩
    · exact h.lock k ⟨.current cur, began⟩ hi
    · exact h.lock k q hk
  · intro k hk
    rw [length_go]
    exact h.held k hk
  · exact fun _ _ _ _ _ => ⟨i, _, getElem?_go hi, rfl⟩
  · intro k q v hk hv
    rcases requests_go hk with ⟨rfl, rfl⟩ | ⟨hne, hk⟩
    · cases hv
    · exact absurd (h.holder hk hi (Phase.holds_of_token hv) rfl) hne
  · -- The token was read under the lock, so it is one that was not used.
    have hnew := h.tokens i _ token hi htoken
    exact List.nodup_append.mpr ⟨h.once, List.nodup_singleton token, fun v hv w hw hvw => by
      rw [List.mem_singleton.mp hw] at hvw
      exact hnew (hvw ▸ hv)⟩

theorem TokensSound.unheld (h : s.TokensSound) (hold : ∀ i, s.lock ≠ .held i)
    {lock : AdvisoryLock} (hlock : ∀ i, lock ≠ .held i) :
    ({ s with lock := lock } : Sessions Token).TokensSound := by
  refine ⟨?_, fun i hi => absurd hi (hlock i), h.stored, h.tokens, h.once⟩
  intro i r hi
  refine ⟨fun hr => ?_, fun hheld => absurd hheld (hlock i)⟩
  exact absurd ((h.lock i r hi).mp hr) (hold i)

theorem TokensSound.move (h : s.TokensSound) (hmove : Move s t) : t.TokensSound := by
  cases hmove with
  | arrive =>
    refine ⟨?_, ?_, ?_, ?_, h.once⟩
    · intro k q hk
      rcases getElem?_append_cases hk with ⟨rfl, rfl⟩ | hk
      · refine ⟨nofun, fun hheld => ?_⟩
        exact absurd (h.held _ hheld) (Nat.lt_irrefl _)
      · exact h.lock k q hk
    · intro k hk
      rw [List.length_append]
      exact Nat.lt_add_right 1 (h.held k hk)
    · intro row v hrow hv hused
      obtain ⟨j, q, hj, hafter⟩ := h.stored row v hrow hv hused
      refine ⟨j, q, ?_, hafter⟩
      exact (List.getElem?_append_left (List.getElem?_eq_some_iff.mp hj).1).trans hj
    · intro k q v hk hv
      rcases getElem?_append_cases hk with ⟨rfl, rfl⟩ | hk
      · cases hv
      · exact h.tokens k q v hk hv
  | go hi hgo => exact h.go hi hgo
  | deleteAged hi => exact h.outside hi rfl rfl
  | acquireLock hi hfree => exact h.acquireLock hi hfree
  | refresh hi htoken => exact h.refresh hi htoken
  | commitUpdated hi =>
    refine h.commit hi rfl ?_
    intro new v hnew hv hused
    obtain rfl := some.inj hnew
    exact absurd hused (h.tokens _ _ v hi hv)
  | commitDeleted hi => exact h.commit hi rfl nofun
  | commitNothing hi =>
    refine h.commit hi rfl ?_
    exact fun new v hnew _ _ => ⟨rfl, hnew⟩
  | signOut => exact ⟨h.lock, h.held, nofun, h.tokens, h.once⟩
  | foreignLock hfree => exact h.unheld (fun i hi => by rw [hfree] at hi; cases hi) nofun
  | foreignUnlock hforeign => exact h.unheld (fun i hi => by rw [hforeign] at hi; cases hi) nofun

end Sessions

/-! ### What a request returns -/

def SessionRequest.During (history : List (Option (Session Token))) (r : SessionRequest Token) : Prop :=
  match r.phase with
  | .current cur => ∃ k, r.began ≤ k ∧ history[k]? = some (some cur)
  | .finishing (some row) => ∃ k, r.began ≤ k ∧ history[k]? = some (some row)
  | .returned (some row) ended => ∃ k, r.began ≤ k ∧ k ≤ ended ∧ history[k]? = some (some row)
  | _ => True

theorem SessionRequest.During.append (h : r.During history)
    (row : Option (Session Token)) :
    r.During (history ++ [row]) := by
  have hmono : ∀ {k : ℕ} {x : Option (Session Token)}, history[k]? = some x →
      (history ++ [row])[k]? = some x := fun hk =>
    (List.getElem?_append_left (List.getElem?_eq_some_iff.mp hk).1).trans hk
  obtain ⟨phase, began⟩ := r
  cases phase with
  | current cur =>
    obtain ⟨k, hk, hrow⟩ := h
    exact ⟨k, hk, hmono hrow⟩
  | finishing result =>
    cases result with
    | none => trivial
    | some row =>
      obtain ⟨k, hk, hrow⟩ := h
      exact ⟨k, hk, hmono hrow⟩
  | returned result ended =>
    cases result with
    | none => trivial
    | some row =>
      obtain ⟨k, hk, hended, hrow⟩ := h
      exact ⟨k, hk, hended, hmono hrow⟩
  | _ => trivial

namespace Sessions

/-- The history ends with the row, and each request knows where in it it began. -/
structure HistorySound (s : Sessions Token) : Prop where
  last : s.history[s.history.length - 1]? = some s.row
  began : ∀ r ∈ s.requests, r.began < s.history.length
  during : ∀ r ∈ s.requests, r.During s.history

theorem HistorySound.leads (h : s.HistorySound) (hr : r ∈ s.requests)
    (hgo : Leads s r.phase phase) : SessionRequest.During s.history { r with phase := phase } := by
  have hbegan : r.began ≤ s.history.length - 1 := Nat.le_sub_one_of_lt (h.began r hr)
  have hduring := h.during r hr
  have hlast := h.last
  unfold SessionRequest.During at hduring
  generalize r.phase = old at hgo hduring
  cases hgo with
  | fresh hrow =>
    rw [hrow] at hlast
    exact ⟨_, hbegan, Nat.le_refl _, hlast⟩
  | current hrow =>
    rw [hrow] at hlast
    exact ⟨_, hbegan, hlast⟩
  | still => exact hduring
  | _ => trivial

theorem HistorySound.go (h : s.HistorySound) (hi : s.requests[i]? = some r)
    (hduring : SessionRequest.During s.history { r with phase := phase }) :
    (s.go i r phase).HistorySound :=
  ⟨h.last, forall_mem_set h.began (h.began r (List.mem_of_getElem? hi)),
    forall_mem_set h.during hduring⟩

theorem HistorySound.setRow (h : s.HistorySound) (row : Option (Session Token)) :
    (s.setRow row).HistorySound := by
  have hlength : (s.history ++ [row]).length - 1 = s.history.length := by
    rw [List.length_append, List.length_singleton]
    exact Nat.add_sub_cancel _ _
  refine ⟨?_, ?_, ?_⟩
  · show (s.history ++ [row])[(s.history ++ [row]).length - 1]? = some row
    rw [hlength, List.getElem?_append_right (Nat.le_refl _), Nat.sub_self]
    rfl
  · intro r hr
    show r.began < (s.history ++ [row]).length
    rw [List.length_append]
    exact Nat.lt_add_right 1 (h.began r hr)
  · intro r hr
    exact (h.during r hr).append row

theorem HistorySound.goReturn (h : s.HistorySound) {result : Option (Session Token)} (hi : s.requests[i]? = some r)
    (hresult : ∀ row, result = some row → ∃ k, r.began ≤ k ∧ s.history[k]? = some (some row)) :
    (s.goReturn i r result).HistorySound := by
  refine h.go hi ?_
  cases result with
  | none => trivial
  | some row =>
    obtain ⟨k, hk, hrow⟩ := hresult row rfl
    have hlt := (List.getElem?_eq_some_iff.mp hrow).1
    exact ⟨k, hk, Nat.le_sub_one_of_lt hlt, hrow⟩

theorem HistorySound.move (h : s.HistorySound) (hmove : Move s t) : t.HistorySound := by
  cases hmove with
  | arrive =>
    have hlength : s.history.length - 1 < s.history.length :=
      (List.getElem?_eq_some_iff.mp h.last).1
    refine ⟨h.last, ?_, ?_⟩
    · intro r hr
      rcases List.mem_append.mp hr with hr | hr
      · exact h.began r hr
      · obtain rfl := List.mem_singleton.mp hr
        exact hlength
    · intro r hr
      rcases List.mem_append.mp hr with hr | hr
      · exact h.during r hr
      · obtain rfl := List.mem_singleton.mp hr
        trivial
  | go hi hgo => exact h.go hi (h.leads (List.mem_of_getElem? hi) hgo)
  | deleteAged hi => exact (h.setRow none).goReturn hi nofun
  | @acquireLock i began hi hfree =>
    have hgo : (s.go i ⟨.waiting, began⟩ .locked).HistorySound := h.go hi trivial
    exact ⟨hgo.last, hgo.began, hgo.during⟩
  | @refresh i began cur token hi htoken =>
    have hgo : (s.go i ⟨.current cur, began⟩ (.refreshing cur)).HistorySound := h.go hi trivial
    exact ⟨hgo.last, hgo.began, hgo.during⟩
  | @commitUpdated i began new hi =>
    have hset := h.setRow (some new)
    have hreturn : ((s.setRow (some new)).goReturn i ⟨.updated new, began⟩ (some new)).HistorySound := by
      refine hset.goReturn hi ?_
      intro row hrow
      obtain rfl := some.inj hrow
      exact ⟨_, Nat.le_sub_one_of_lt (hset.began _ (List.mem_of_getElem? hi)), hset.last⟩
    exact ⟨hreturn.last, hreturn.began, hreturn.during⟩
  | @commitDeleted i began hi =>
    have hreturn : ((s.setRow none).goReturn i ⟨.deleted, began⟩ none).HistorySound :=
      (h.setRow none).goReturn hi nofun
    exact ⟨hreturn.last, hreturn.began, hreturn.during⟩
  | @commitNothing i began result hi =>
    have hreturn : (s.goReturn i ⟨.finishing result, began⟩ result).HistorySound := by
      refine h.goReturn hi ?_
      rintro row rfl
      exact h.during _ (List.mem_of_getElem? hi)
    exact ⟨hreturn.last, hreturn.began, hreturn.during⟩
  | signOut => exact h.setRow none
  | foreignLock _ => exact ⟨h.last, h.began, h.during⟩
  | foreignUnlock _ => exact ⟨h.last, h.began, h.during⟩

/-! ### Every run -/

def start (row : Session Token) : Sessions Token := ⟨some row, .free, [], [], [some row]⟩

instance [DecidableEq Token] (s : Sessions Token) :
    ∀ a : SessionAction Token, Decidable (s.ReturnsNew a)
  | .refreshed _ set => inferInstanceAs (Decidable (∃ token, set.refreshToken = some token ∧ _))
  | .arrive | .select _ _ | .deleteAged _ | .acquireLock _ | .selectCurrent _ | .refresh _ _
  | .refreshFailed _ | .update _ _ | .delete _ | .commit _ | .signOut | .foreignLock
  | .foreignUnlock => inferInstanceAs (Decidable True)

def expiring : Session ℕ := ⟨10, some 1, none, 1000, 0⟩

end Sessions

end IncusCloud.Auth
