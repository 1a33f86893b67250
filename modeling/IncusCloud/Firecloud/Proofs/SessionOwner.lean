import IncusCloud.Firecloud.Proofs.TrustSession
import Mathlib.Data.Fintype.Basic

/-!
# Whose session it is

A handler reads `sh.Session` again for each thing it does, so what it takes intents from, allows
certificates in and stops is the session that is current by then. Where a session starts only while
none is active and no other request's handler is left from before, that is its own
(`sessions_stay_with_starter`).
-/

open Option

namespace IncusCloud.Firecloud.Trust

open Lib (RwLock Run)

namespace World

variable {ι : Type} [DecidableEq ι] {w w' : World ι} {i : ι} {o : Outcome ι}

/-- No session was replaced while it was active, and each request's handler only took intents from,
allowed certificates in and stopped the session it started. -/
def WithStarter (w : World ι) : Prop :=
  w.replaced = [] ∧ ∀ u ∈ w.uses, w.owner u.2 = some u.1

def StartsAlone (w : World ι) : Action ι → Prop
  | .go i (.passphrase _) =>
    match w.tasks i with
    | .asked _ _ =>
      (w.session.all fun x => x.2.passphrase = "") = true ∧ ∀ j, (w.tasks j).inHandler = false
    | _ => True
  | _ => True

/-- What holds in every state of every run that meets `StartsAlone`. -/
structure Own (w : World ι) : Prop where
  handler : ∀ j, (w.tasks j).inHandler = true → ∃ s, w.current = some s ∧ w.owner s = some j
  waits : ∀ j role s, w.tasks j = .handling role (.waiting s) → w.owner s = some j
  uses : ∀ u ∈ w.uses, w.owner u.2 = some u.1
  replaced : w.replaced = []

theorem Own.keep (hi : Own w) (h : Effect w i o w') (hcurrent : w'.current = w.current)
    (hreplaced : w'.replaced = w.replaced)
    (huses : ∀ u ∈ w'.uses, u ∈ w.uses ∨ w.owner u.2 = some u.1)
    (hmine : (w'.tasks i).inHandler = true → (w.tasks i).inHandler = true)
    (hwaits : ∀ role s, w'.tasks i = .handling role (.waiting s) →
      (w.tasks i).inHandler = true ∧ w.current = some s) : Own w' := by
  refine ⟨?_, ?_, ?_, hreplaced.trans hi.replaced⟩
  · intro j hj
    have hbefore : (w.tasks j).inHandler = true := by
      by_cases hji : j = i
      · subst hji
        exact hmine hj
      · rcases h.others hji with hsame | ⟨s, -, ⟨hend, -⟩ | ⟨hend, -⟩⟩
        · rwa [hsame] at hj
        · rw [hend] at hj
          exact nomatch hj
        · rw [hend] at hj
          exact nomatch hj
    obtain ⟨s, hs, howner⟩ := hi.handler j hbefore
    exact ⟨s, hcurrent.trans hs, h.owner howner⟩
  · intro j role s hj
    by_cases hji : j = i
    · subst hji
      obtain ⟨hin, hs⟩ := hwaits role s hj
      obtain ⟨t, ht, howner⟩ := hi.handler j hin
      have hts : t = s := some.inj (ht.symm.trans hs)
      exact h.owner (hts ▸ howner)
    · rcases h.others hji with hsame | ⟨t, -, ⟨hend, -⟩ | ⟨hend, -⟩⟩
      · exact h.owner (hi.waits j role s (hsame.symm.trans hj))
      · rw [hend] at hj
        exact nomatch hj
      · rw [hend] at hj
        exact nomatch hj
  · intro u hu
    rcases huses u hu with hu | hu
    · exact h.owner (hi.uses u hu)
    · exact h.owner hu

omit [DecidableEq ι] in
theorem Own.current (hi : Own w) {s : ℕ} (hin : (w.tasks i).inHandler = true)
    (hs : w.current = some s) : w.owner s = some i := by
  obtain ⟨t, ht, howner⟩ := hi.handler i hin
  rwa [some.inj (ht.symm.trans hs)] at howner

theorem Own.start (hi : Own w) {role : SessionRole} {passphrase : String} {phase : HandlerPhase}
    (hphase : phase = .announcing ∨ phase = .preparing) (h : Effect w i o w')
    (hto : w' = { w.setTask i (.handling role phase) with
      sessions := w.sessions ++ [newSession role passphrase i]
      current := some w.sessions.length
      replaced := (match w.session with
        | some (s, x) => if x.passphrase = "" then [] else [s]
        | none => []) ++ w.replaced })
    (hnone : (w.session.all fun x => x.2.passphrase = "") = true)
    (halone : ∀ j, (w.tasks j).inHandler = false) : Own w' := by
  subst hto
  have htasks : ∀ j, (w.setTask i (.handling role phase)).tasks j =
      if j = i then .handling role phase else w.tasks j := tasks_setTask w i _
  refine ⟨?_, ?_, fun u hu => h.owner (hi.uses u hu), ?_⟩
  · intro j hj
    rw [htasks] at hj
    split_ifs at hj with hji
    · refine ⟨w.sessions.length, rfl, ?_⟩
      simp [World.owner, newSession, hji]
    · rw [halone j] at hj
      exact nomatch hj
  · intro j role' s hj
    rw [htasks] at hj
    split_ifs at hj with hji
    · rcases hphase with rfl | rfl
      · cases hj
      · cases hj
    · exact absurd (by rw [hj]; rfl) (Bool.eq_false_iff.mp (halone j))
  · dsimp only
    rw [hi.replaced, List.append_nil]
    split
    · rename_i s x hsession
      rw [hsession] at hnone
      rw [if_pos (by simpa using hnone)]
    · rfl

theorem Effect.own (h : Effect w i o w') (hi : Own w) (hok : StartsAlone w (.go i o)) : Own w' := by
  have htask : ∀ (v : World ι) (t : Task), (v.setTask i t).tasks i = t := by
    intro v t
    rw [tasks_setTask, if_pos rfl]
  -- A step after which the request is in no handler, or in one as before and not in a select.
  have hkeep : w'.current = w.current → w'.replaced = w.replaced → w'.uses = w.uses → ∀ t, w'.tasks i = t →
      (t.inHandler = true → (w.tasks i).inHandler = true) → (∀ role s, t ≠ .handling role (.waiting s)) →
      Own w' := by
    intro hcurrent hreplaced huses t ht hin hwait
    refine hi.keep h hcurrent hreplaced (fun u hu => .inl (huses ▸ hu)) (fun hx => hin (ht ▸ hx)) ?_
    intro role s hw
    exact absurd (ht.symm.trans hw) (hwait role s)
  have hstopped : ∀ (v : World ι) (by_ : StopBy) (s : ℕ) (ok : Bool), v.current = w.current →
      v.replaced = w.replaced → v.uses = w.uses → w' = v.stopped i by_ s ok → Own w' := by
    intro v by_ s ok hcurrent hreplaced huses hw
    obtain ⟨b, hb, -⟩ := tasks_stopped v i by_ s ok
    refine hkeep ?_ ?_ ?_ (.done b) (hw ▸ hb) (fun hx => by cases hx) (fun _ _ hx => by cases hx)
    · rw [hw]
      cases by_ <;> exact hcurrent
    · rw [hw]
      cases by_ <;> exact hreplaced
    · rw [hw]
      cases by_ <;> exact huses
  have hstop : ∀ (by_ : StopBy) (s : ℕ) (phase phase' : StopPhase), w.tasks i = .stopping by_ s phase →
      Task.inHandler (.stopping by_ s phase') = true → (w.tasks i).inHandler = true := by
    intro by_ s phase phase' hfrom hx
    rw [hfrom]
    cases by_ <;> exact hx
  have he := h
  cases he with
  | idle t hfrom hto hjoins =>
    have hout : t.inHandler = false := (Task.of_idle hto).2.2.1
    refine hkeep rfl rfl rfl t (htask w t) (fun hx => ?_) fun role s hx => ?_
    · rw [hout] at hx
      cases hx
    · rw [hx] at hout
      cases hout
  | start role given passphrase phase ho hfrom hphase hpass hl =>
    obtain ⟨generated, rfl⟩ := ho
    have halone : (w.session.all fun x => x.2.passphrase = "") = true ∧ ∀ j,
      (w.tasks j).inHandler = false := by
      simpa only [StartsAlone, hfrom] using hok
    exact hi.start hphase h rfl halone.1 halone.2
  | handler role phase t hfrom hto =>
    have hin : (w.tasks i).inHandler = true := by rw [hfrom]; rfl
    refine hi.keep h rfl rfl (fun u hu => .inl hu) (fun _ => hin) fun role' s hx => ⟨hin, ?_⟩
    rw [htask] at hx
    rcases hto with rfl | ⟨phase', rfl, hwait⟩
    · cases hx
    · exact hwait s (Task.handling.inj hx).2
  | discovery role s t hfrom hs hto =>
    refine hkeep rfl rfl rfl t (htask _ t) (fun _ => by rw [hfrom]; rfl) fun role' s' hx => ?_
    rcases hto with rfl | rfl
    · cases hx
    · cases (Task.handling.inj hx).2
  | allow role phase phase' s intent hfrom hs hto =>
    have hin : (w.tasks i).inHandler = true := by rw [hfrom]; rfl
    refine hi.keep h rfl rfl ?_ (fun _ => hin) fun role' s' hx => ?_
    · intro u hu
      rcases List.mem_cons.mp hu with rfl | hu
      · exact .inr (hi.current hin hs)
      · exact .inl hu
    · have hphase : phase' = .waiting s' := (Task.handling.inj ((htask _ _).symm.trans hx)).2
      exact absurd hphase (hto s')
  | receive role s j post hfrom hj =>
    have hin : (w.tasks i).inHandler = true := by rw [hfrom]; rfl
    refine hi.keep h rfl rfl ?_ (fun _ => hin) fun role' s' hx => ?_
    · intro u hu
      rcases List.mem_cons.mp hu with rfl | hu
      · exact .inr (hi.waits i role s hfrom)
      · exact .inl hu
    · have hphase : HandlerPhase.forwarding post.intent = .waiting s' :=
        (Task.handling.inj ((htask _ _).symm.trans hx)).2
      cases hphase
  | stopSession s l hfrom hs hl =>
    have hin : (w.tasks i).inHandler = true := by rw [hfrom]; rfl
    refine hi.keep h rfl rfl ?_ (fun _ => hin) fun role' s' hx => ?_
    · intro u hu
      rcases List.mem_cons.mp hu with rfl | hu
      · exact .inr (hi.current hin hs)
      · exact .inl hu
    · cases (htask _ _).symm.trans hx
  | noSession hfrom hs => exact hkeep rfl rfl rfl _ (htask w _) (fun hx => by cases hx) (fun _ _ hx => by cases hx)
  | lockSession by_ s phase hfrom hto =>
    exact hkeep rfl rfl rfl _ (htask _ _) (hstop by_ s _ phase hfrom) (fun _ _ hx => by cases hx)
  | stop by_ s phase phase' hfrom hto =>
    exact hkeep rfl rfl rfl _ (htask _ _) (hstop by_ s _ phase' hfrom) (fun _ _ hx => by cases hx)
  | probe by_ s hfrom =>
    exact hkeep rfl rfl rfl _ (htask _ _) (hstop by_ s _ .closing hfrom) (fun _ _ hx => by cases hx)
  | abandon by_ s phase hfrom hphase ho => exact hstopped w by_ s false rfl rfl rfl rfl
  | clear by_ s x hfrom hx =>
    exact hkeep rfl rfl rfl _ (htask _ _) (hstop by_ s _ .probing hfrom) (fun _ _ hx => by cases hx)
  | take by_ s j hfrom hj =>
    exact hkeep rfl rfl rfl _ (htask _ _) (hstop by_ s _ .exiting hfrom) (fun _ _ hx => by cases hx)
  | close by_ s hfrom =>
    refine hkeep rfl rfl rfl (.stopping by_ s .exiting) ?_ (hstop by_ s _ .exiting hfrom)
      (fun _ _ hx => by cases hx)
    simp [closeIntents]
  | exit by_ s closes hfrom =>
    exact hstopped (w.modify s fun x => { x with exitClosed := closes || x.exitClosed })
      by_ s true rfl rfl rfl rfl
  | lets post s x hfrom hl hx hpass =>
    exact hkeep rfl rfl rfl _ (htask w _) (fun hx => by cases hx) (fun _ _ hx => by cases hx)
  | wrong post s x hfrom hl hx hpass hmore =>
    exact hkeep rfl rfl rfl _ (htask _ _) (fun hx => by cases hx) (fun _ _ hx => by cases hx)
  | exceeds post s x l hfrom hl hx =>
    exact hkeep rfl rfl rfl _ (htask w _) (fun hx => by cases hx) (fun _ _ hx => by cases hx)
  | enter post s x l hfrom hl hx hpass =>
    exact hkeep rfl rfl rfl _ (htask w _) (fun hx => by cases hx) (fun _ _ hx => by cases hx)
  | register post s fingerprint hfrom =>
    exact hkeep rfl rfl rfl _ (htask _ _) (fun hx => by cases hx) (fun _ _ hx => by cases hx)
  | send post s hfrom hopen =>
    exact hkeep rfl rfl rfl _ (htask w _) (fun hx => by cases hx) (fun _ _ hx => by cases hx)
  | panic post s hfrom hclosed =>
    exact hkeep rfl rfl rfl _ (htask _ _) (fun hx => by cases hx) (fun _ _ hx => by cases hx)
  | leave s hfrom =>
    refine hkeep rfl rfl rfl (.done false) ?_ (fun hx => by cases hx) (fun _ _ hx => by cases hx)
    rw [tasks_leave, if_pos rfl]
  | put s l hfrom hl =>
    exact hkeep rfl rfl rfl _ (htask w _) (fun hx => by cases hx) (fun _ _ hx => by cases hx)

omit [DecidableEq ι] in
theorem own_start (requests : ι → Request) : Own (start requests) :=
  ⟨fun _ h => (nomatch h), fun _ _ _ h => (nomatch h), fun _ h => (nomatch h), rfl⟩

theorem own_of_run {requests : ι → Request} (h : Run step StartsAlone (start requests) w) : Own w := by
  refine h.invariant (own_start requests) fun v a u hi hok hs => ?_
  cases a with
  | go i o => exact (go_effect hs).own hi hok
  | hangUp i =>
    rw [← some.inj hs]
    exact ⟨hi.handler, hi.waits, hi.uses, hi.replaced⟩

/-- **A session belongs to the request that started it**: in every run that starts a session only
while none is active and no other handler is left from before, no active session is replaced, and
each handler only takes intents from, allows certificates in and stops its own. -/
theorem sessions_stay_with_starter {requests : ι → Request}
    (h : Run step StartsAlone (start requests) w) : WithStarter w :=
  ⟨(own_of_run h).replaced, (own_of_run h).uses⟩

instance [Fintype ι] (w : World ι) (a : Action ι) : Decidable (StartsAlone w a) := by
  apply Action.casesOn (motive := fun a => Decidable (StartsAlone w a)) a
  · intro i o
    apply Outcome.casesOn (motive := fun o => Decidable (StartsAlone w (.go i o))) o
    case passphrase =>
      intro
      apply Task.casesOn (motive := fun t => Decidable (match t with | .asked _ _ => _ | _ => True))
        (w.tasks i)
      all_goals intros; dsimp only; infer_instance
    all_goals intros; exact isTrue trivial
  · intro
    exact isTrue trivial

end World

/-! ### Two initiators -/

def twoInitiators : Fin 2 → Request := fun _ => .session .initiating

/-- One of them starts its session and stops it again, and then the other does. -/
def oneByOne : List (Action (Fin 2)) :=
  [.go 0 .ok, .go 0 (.passphrase "able"), .go 0 (.passphrase ""), .go 0 .fails, .go 0 .ok,
    .go 0 .ok, .go 0 .ok,
    .go 0 .ok, .go 0 .ok, .go 0 .ok, .go 0 .ok, .go 1 .ok, .go 1 (.passphrase "baker"),
      .go 1 (.passphrase "")]

theorem sessions_stay_with_starter_oneByOne :
    ∃ w : World (Fin 2), w.uses = [(0, 0)] ∧ w.owner 1 = some 1 ∧ w.WithStarter := by
  obtain ⟨w, hrun, huses, howner⟩ : ∃ w : World (Fin 2),
      Run World.step World.StartsAlone (World.start twoInitiators) w ∧
        (w.uses = [(0, 0)] ∧ w.owner 1 = some 1) :=
    Run.exists_of_exec oneByOne (by decide)
  exact ⟨w, huses, howner, World.sessions_stay_with_starter hrun⟩

/-- Both see that no session is active, and start theirs; the first one's handler fails, and its
deferred stop stops the other's session. -/
def bothStart : List (Action (Fin 2)) :=
  [.go 0 .ok, .go 1 .ok, .go 0 (.passphrase "able"), .go 1 (.passphrase "baker"),
    .go 0 (.passphrase ""), .go 1 (.passphrase ""), .go 0 .fails, .go 0 .ok]

/-- An active session is replaced, and the other request's is stopped. -/
theorem session_of_another_stopped :
    ¬ ∀ w : World (Fin 2), Run World.step (fun _ _ => True) (World.start twoInitiators) w →
      w.WithStarter := by
  intro h
  obtain ⟨w, hrun, hreplaced, huses, howner⟩ : ∃ w : World (Fin 2),
      Run World.step (fun _ _ => True) (World.start twoInitiators) w ∧
        (w.replaced = [0] ∧ w.uses = [(0, 1)] ∧ w.owner 1 = some 1) :=
    Run.exists_of_exec bothStart (by decide)
  have hmine := (h w hrun).2 (0, 1) (by rw [huses]; exact List.mem_cons_self)
  rw [howner] at hmine
  exact absurd (some.inj hmine) (by decide)

/-!
### How often the passphrase is guessed

A session is stopped at the wrong post that comes after `AllowedFailedJoinAttempts` others, and a
stop that does not fail there takes the passphrase before anybody else comes in (`guesses_bounded`).
A stop that fails leaves the session as it was, with its passphrase.
-/

namespace World

variable {ι : Type} [DecidableEq ι] {w w' : World ι} {i : ι} {o : Outcome ι}

/-- No post was let through after more than `AllowedFailedJoinAttempts` wrong ones against the
session. -/
def GuessesBounded (w : World ι) : Prop := ∀ q ∈ w.passed, q.2 ≤ allowedFailedJoinAttempts

/-- The stop after too many failed attempts does not fail: neither its `WriteClose` nor the
responder. -/
def LimitStops (w : World ι) : Action ι → Prop
  | .go i .fails =>
    match w.tasks i with
    | .stopping .limit _ phase => phase ≠ .writing ∧ phase ≠ .responder
    | _ => True
  | _ => True

/-- A stop after too many failed attempts is on its way to clear the session. -/
def Shutting (w : World ι) (s : ℕ) : Prop := ∃ j phase, w.tasks j = .stopping .limit s phase ∧
    phase.cleared = false

/-- What holds in every state of every run that meets `LimitStops`. -/
structure Counted (w : World ι) : Prop where
  guarded : Guarded w
  cleared : Cleared w
  started : ∀ s ∈ w.wrong, s < w.sessions.length
  attempts : ∀ (s : ℕ) (x : Session ι), w.sessions[s]? = some x → x.passphrase ≠ "" →
    x.failedAttempts ≤ allowedFailedJoinAttempts ∧ (x.failedAttempts = w.wrong.count s ∨ w.Shutting s)
  passed : GuessesBounded w

theorem Effect.shutting (h : Effect w i o w') (hok : LimitStops w (.go i o)) {s : ℕ}
    (hs : w.Shutting s) : w'.Shutting s ∨ w'.Inactive s := by
  obtain ⟨j, phase, hj, hphase⟩ := hs
  by_cases hji : j = i
  · subst hji
    rcases h.of_stopping hj with ⟨phase', hj', hclear, -⟩ | ⟨-, hcleared | ⟨rfl, hfails⟩⟩
    · by_cases hc : phase'.cleared = true
      · rcases hclear hc with hcleared | hinactive
        · rw [hphase] at hcleared
          exact nomatch hcleared
        · exact .inr hinactive
      · exact .inl ⟨j, phase', hj', by simpa using hc⟩
    · rw [hphase] at hcleared
      exact nomatch hcleared
    · simp only [LimitStops, hj] at hok
      rcases hfails with hfails | hfails
      · exact absurd hfails hok.1
      · exact absurd hfails hok.2
  · exact .inl ⟨j, phase, (h.stopping hji).mpr hj, hphase⟩

omit [DecidableEq ι] in
theorem Counted.count_le (hi : Counted w) (hfree : w.sessionLock.writer = none) {s : ℕ}
    {x : Session ι} (hx : w.sessions[s]? = some x) (hpass : x.passphrase ≠ "") :
    w.wrong.count s ≤ allowedFailedJoinAttempts := by
  obtain ⟨hle, hcount | ⟨j, phase, hj, -⟩⟩ := hi.attempts s x hx hpass
  · omega
  · exact absurd (by rw [hj]; rfl) (RwLock.Guards.not_writes hi.guarded hfree j)

theorem Effect.history (h : Effect w i o w') (hi : Counted w) :
    (∀ s ∈ w'.wrong, s ∈ w.wrong ∨ s < w.sessions.length) ∧ GuessesBounded w' := by
  have hkeep : w'.wrong = w.wrong → w'.passed = w.passed →
      (∀ s ∈ w'.wrong, s ∈ w.wrong ∨ s < w.sessions.length) ∧ GuessesBounded w' := by
    intro hwrong hpassed
    refine ⟨fun s hs => .inl (hwrong ▸ hs), ?_⟩
    unfold GuessesBounded
    rw [hpassed]
    exact hi.passed
  have hadds : ∀ (s : ℕ) (x : Session ι), w.sessions[s]? = some x → w'.wrong = s :: w.wrong →
      w'.passed = w.passed → (∀ s ∈ w'.wrong, s ∈ w.wrong ∨ s < w.sessions.length) ∧ GuessesBounded w' := by
    intro s x hx hwrong hpassed
    refine ⟨fun t ht => ?_, fun q hq => hi.passed q (hpassed ▸ hq)⟩
    rw [hwrong] at ht
    rcases List.mem_cons.mp ht with rfl | ht
    · exact .inr (List.getElem?_eq_some_iff.mp hx).1
    · exact .inl ht
  cases h with
  | lets post s x hfrom hlock hx hpass =>
    obtain ⟨l, hl⟩ := hlock
    refine ⟨fun t ht => .inl ht, fun q hq => ?_⟩
    rcases List.mem_cons.mp hq with rfl | hq
    · exact hi.count_le (RwLock.lock_eq_some.mp hl).1.1 hx hpass
    · exact hi.passed q hq
  | wrong post s x hfrom hlock hx hpass hmore => exact hadds s x hx rfl rfl
  | exceeds post s x l hfrom hl hx => exact hadds s x hx rfl rfl
  | abandon by_ s phase hfrom hphase ho => cases by_ <;> exact hkeep rfl rfl
  | exit by_ s closes hfrom => cases by_ <;> exact hkeep rfl rfl
  | _ => exact hkeep rfl rfl

theorem Effect.counted (h : Effect w i o w') (hi : Counted w) (hok : LimitStops w (.go i o)) :
    Counted w' := by
  have hlength : w.sessions.length ≤ w'.sessions.length := by
    by_contra hlt
    have hin : w'.sessions.length < w.sessions.length := by omega
    obtain ⟨y, hy, -⟩ := h.session (List.getElem?_eq_getElem hin)
    have hnot := (List.getElem?_eq_some_iff.mp hy).1
    omega
  obtain ⟨hwrong, hpassed⟩ := h.history hi
  refine ⟨h.guarded hi.guarded, h.cleared hi.cleared, ?_, ?_, hpassed⟩
  · intro s hs
    rcases hwrong s hs with hs | hs
    · exact Nat.lt_of_lt_of_le (hi.started s hs) hlength
    · exact Nat.lt_of_lt_of_le hs hlength
  · intro s y hy hpass
    rcases h.new hy with ⟨x, hx⟩ | ⟨rfl, hsame, role, passphrase, rfl⟩
    · obtain ⟨y', hy', hafter⟩ := h.session hx
      obtain rfl := some.inj (hy.symm.trans hy')
      have hactive : x.passphrase ≠ "" := by
        rcases hafter.passphrase with hp | hp
        · rwa [← hp]
        · exact absurd hp hpass
      obtain ⟨hle, hcount⟩ := hi.attempts s x hx hactive
      obtain ⟨hle', hsum | hstop⟩ := hafter.attempts hpass hle
      · refine ⟨hle', ?_⟩
        rcases hcount with hcount | hshut
        · exact .inl (by omega)
        · rcases h.shutting hok hshut with hshut | ⟨z, hz, hnone⟩
          · exact .inr hshut
          · rw [some.inj (hz.symm.trans hy)] at hnone
            exact absurd hnone hpass
      · exact ⟨hle', .inr ⟨i, .locking, hstop, rfl⟩⟩
    · refine ⟨Nat.zero_le _, .inl ?_⟩
      -- Nobody has tried the new session.
      have hnever : w.sessions.length ∉ w.wrong := fun hmem => Nat.lt_irrefl _ (hi.started _ hmem)
      rw [hsame, List.count_eq_zero_of_not_mem hnever]
      rfl

omit [DecidableEq ι] in
theorem counted_start (requests : ι → Request) : Counted (start requests) :=
  ⟨guarded_start requests, fun _ _ _ _ h => (nomatch h), fun _ h => (nomatch h),
    fun _ _ h => (nomatch h), fun _ h => (nomatch h)⟩

theorem counted_of_run {requests : ι → Request} (h : Run step LimitStops (start requests) w) : Counted w := by
  refine h.invariant (counted_start requests) fun v a u hi hok hs => ?_
  cases a with
  | go i o => exact (go_effect hs).counted hi hok
  | hangUp i =>
    rw [← some.inj hs]
    exact ⟨hi.guarded, hi.cleared, hi.started, hi.attempts, hi.passed⟩

/-- **Guessing the passphrase is bounded**: in every run in which the stop after too many failed
attempts does not fail, no post is let through after more than `AllowedFailedJoinAttempts` wrong
ones against the session. -/
theorem guesses_bounded {requests : ι → Request} (h : Run step LimitStops (start requests) w) :
    GuessesBounded w :=
  (counted_of_run h).passed

instance (w : World ι) (a : Action ι) : Decidable (LimitStops w a) := by
  apply Action.casesOn (motive := fun a => Decidable (LimitStops w a)) a
  · intro i o
    apply Outcome.casesOn (motive := fun o => Decidable (LimitStops w (.go i o))) o
    case fails =>
      apply Task.casesOn (motive := fun t => Decidable (match t with
        | .stopping .limit _ phase => phase ≠ .writing ∧ phase ≠ .responder
        | _ => True)) (w.tasks i)
      case stopping =>
        intro by_
        refine StopBy.casesOn by_ ?_ ?_ ?_ <;> intros <;> dsimp only <;> infer_instance
      all_goals intros; dsimp only; infer_instance
    all_goals intros; exact isTrue trivial
  · intro
    exact isTrue trivial

end World

/-! ### A door that does not shut -/

/-- A post with this intent, whose HMAC is made from `passphrase`. -/
def postWith (passphrase : String) : JoinPost :=
  { hmac := fun p => p = passphrase, intent := ⟨"peer", "certificate"⟩, fingerprint := some "fingerprint" }

def guessing (guesses : ℕ) (i : ℕ) : Request :=
  if i = 0 then .session .initiating else if i ≤ guesses then .join (postWith "guess")
    else .join (postWith "able")

def ableStarts : List (Action ℕ) := [.go 0 .ok, .go 0 (.passphrase "able"), .go 0 (.passphrase "")]

/-- The first of these requests take a step each. -/
def eachOnce (n : ℕ) : List (Action ℕ) := (List.range n).map fun i => .go (i + 1) .ok

theorem guesses_bounded_guessed : ∃ w : World ℕ, w.passed = [(0, 3)] ∧ w.GuessesBounded := by
  obtain ⟨w, hrun, hpassed⟩ : ∃ w : World ℕ,
      Run World.step World.LimitStops (World.start (guessing 3)) w ∧ w.passed = [(0, 3)] :=
    Run.exists_of_exec (ableStarts ++ eachOnce 4) (by decide)
  exact ⟨w, hpassed, World.guesses_bounded hrun⟩

/-- The websocket is gone, so that the stop after the last guess cannot write its cause and returns. -/
def doorStaysOpen : List (Action ℕ) :=
  ableStarts ++ [.hangUp 0] ++ eachOnce 51 ++ [.go 51 .ok, .go 51 .fails, .go 52 .ok]

/-- The post after it is let through. -/
theorem guess_after_failed_stop :
    ¬ ∀ w : World ℕ, Run World.step (fun _ _ => True) (World.start (guessing 51)) w → w.GuessesBounded := by
  intro h
  obtain ⟨w, hrun, hpassed⟩ : ∃ w : World ℕ,
      Run World.step (fun _ _ => True) (World.start (guessing 51)) w ∧ w.passed = [(0, 51)] :=
    Run.exists_of_exec doorStaysOpen (by decide)
  have hbounded := h w hrun (0, 51) (by rw [hpassed]; exact List.mem_cons_self)
  exact absurd hbounded (by decide)

end IncusCloud.Firecloud.Trust
