import IncusCloud.Firecloud.TrustSession
import IncusCloud.Lib.Run

/-!
# What a step of a trust session does

`Effect` says once what each step changes, with the guards it has passed; the invariants of the
sessions are proved by its cases (`step_effect`). `guards` is the first: whoever is in a
transaction holds the handler's lock as the source takes it there.
-/

namespace IncusCloud.Firecloud.Trust

open Option

open Lib (RwLock Run)

/-! ### Where a request is -/

namespace Task

variable {s : ℕ} {role : SessionRole} {phase : StopPhase} {by_ : StopBy} {post : JoinPost}

/-- Past the start of its session, up to the end of its deferred stop. -/
def inHandler : Task → Bool
  | handling _ _ => true
  | leaving => true
  | stopping .deferred _ _ => true
  | _ => false

def writes : Task → Bool
  | stopping .limit _ _ => true
  | stopping .deferred _ _ => true
  | _ => false

def reads : Task → Bool
  | stopping .put _ _ => true
  | inside _ _ => true
  | registered _ _ => true
  | sending _ _ => true
  | _ => false

def posts (s : ℕ) : Task → Bool
  | inside _ t => t = s
  | registered _ t => t = s
  | sending _ t => t = s
  | _ => false

def idle : Task → Bool
  | fresh _ => true
  | opened _ => true
  | asked _ _ => true
  | passed _ => true
  | done _ => true
  | _ => false

def joins : Task → Bool
  | fresh (.join _) => true
  | stopping .limit _ _ => true
  | passed _ => true
  | inside _ _ => true
  | registered _ _ => true
  | sending _ _ => true
  | panicked => true
  | done ok => !ok
  | _ => false

theorem of_idle {t : Task} (h : t.idle = true) :
    t.writes = false ∧ t.reads = false ∧ t.inHandler = false ∧ ∀ s, t.posts s = false := by
  cases t with
  | fresh _ | opened _ | asked _ _ | passed _ | done _ => exact ⟨rfl, rfl, rfl, fun _ => rfl⟩
  | _ => exact nomatch h

theorem reads_of_posts {t : Task} (h : t.posts s = true) : t.reads = true := by
  cases t with
  | inside _ _ | registered _ _ | sending _ _ => rfl
  | _ => exact nomatch h

theorem posts_of_sendsOn {t : Task} (h : t.sendsOn s = true) : t.posts s = true := by
  cases t with
  | sending _ _ => exact h
  | _ => exact nomatch h

end Task

def StopPhase.cleared : StopPhase → Bool
  | probing => true
  | closing => true
  | exiting => true
  | _ => false

namespace World

variable {ι : Type}

/-! ### Small lemmas -/

theorem get_modify (w : World ι) (s : ℕ) (f : Session ι → Session ι) (t : ℕ) :
    (w.modify s f).sessions[t]? = if s = t then (w.sessions[t]?).map f else w.sessions[t]? := by
  show (w.sessions.modify s f)[t]? = _
  rw [List.getElem?_modify]
  by_cases h : s = t <;> simp [h]

variable {x : Session ι}

theorem session_eq_some {w : World ι} :
    w.session = some (s, x) ↔ w.current = some s ∧ w.sessions[s]? = some x := by
  simp only [session, bind_eq_some_iff, map_eq_some_iff, Prod.mk.injEq]
  constructor
  · rintro ⟨t, ht, y, hy, rfl, rfl⟩
    exact ⟨ht, hy⟩
  · rintro ⟨hs, hx⟩
    exact ⟨s, hs, x, hx, rfl, rfl⟩

theorem transaction_eq_some {w : World ι}
    (h : w.transaction = some (some (s, x))) :
    w.current = some s ∧ w.sessions[s]? = some x ∧ x.lock = none ∧ x.passphrase ≠ "" := by
  unfold transaction at h
  split at h
  · exact nomatch h
  · rename_i t y hsession
    split_ifs at h with hlock hpass
    · exact nomatch h
    · have hpair : (t, y) = (s, x) := some.inj (some.inj h)
      obtain ⟨rfl, rfl⟩ := Prod.mk.inj hpair
      obtain ⟨hcurrent, hget⟩ := session_eq_some.mp hsession
      exact ⟨hcurrent, hget, by simpa using hlock, hpass⟩

/-- Whoever is in a transaction holds the lock as the source takes it there. -/
def Guarded (w : World ι) : Prop :=
  w.sessionLock.Guards (fun j => (w.tasks j).writes = true) fun j => (w.tasks j).reads = true

theorem Guarded.mono {w : World ι} (hg : Guarded w) (w' : World ι)
    (hl : w'.sessionLock = w.sessionLock) (ht : ∀ j, w'.tasks j = w.tasks j ∨
      ((w'.tasks j).writes = true → (w.tasks j).writes = true) ∧
        ((w'.tasks j).reads = true → (w.tasks j).reads = true)) : Guarded w' := by
  unfold Guarded
  rw [hl]
  refine RwLock.Guards.mono hg ?_ ?_
  · intro j hj
    rcases ht j with h | h
    · rwa [h] at hj
    · exact h.1 hj
  · intro j hj
    rcases ht j with h | h
    · rwa [h] at hj
    · exact h.2 hj

variable [DecidableEq ι]

theorem tasks_setTask (w : World ι) (i : ι) (t : Task) (j : ι) :
    (w.setTask i t).tasks j = if j = i then t else w.tasks j := by
  by_cases h : j = i
  · subst h
    simp [setTask]
  · simp [setTask, h]

/-! ### Effects -/

/-- What one step of request `i` does. -/
inductive Effect (w : World ι) (i : ι) (o : Outcome ι) : World ι → Prop
  /-- It is in no handler and in no transaction, and stays so. -/
  | idle (t : Task) (hfrom : (w.tasks i).idle = true) (hto : t.idle = true)
    (hjoins : (w.tasks i).joins = true → t.joins = true) : Effect w i o (w.setTask i t)
  | start (role : SessionRole) (given passphrase : String) (phase : HandlerPhase)
    (ho : ∃ generated, o = .passphrase generated)
    (hfrom : w.tasks i = .asked role given) (hphase : phase = .announcing ∨ phase = .preparing)
    (hpass : passphrase ≠ "") (hlock : ∃ l, w.sessionLock.lock i = some l) :
    Effect w i o
      { w.setTask i (.handling role phase) with
        sessions := w.sessions ++ [newSession role passphrase i]
        current := some w.sessions.length
        replaced := (match w.session with
          | some (s, x) => if x.passphrase = "" then [] else [s]
          | none => []) ++ w.replaced }
  | handler (role : SessionRole) (phase : HandlerPhase) (t : Task)
    (hfrom : w.tasks i = .handling role phase)
    (hto : t = .leaving ∨ ∃ phase', t = .handling role phase' ∧ ∀ s, phase' = .waiting s →
      w.current = some s) :
    Effect w i o (w.setTask i t)
  | discovery (role : SessionRole) (s : ℕ) (t : Task) (hfrom : w.tasks i = .handling role .announcing)
    (hs : w.current = some s) (hto : t = .leaving ∨ t = .handling role .greeting) :
    Effect w i o ((w.modify s fun x => { x with discovery := true }).setTask i t)
  | allow (role : SessionRole) (phase phase' : HandlerPhase) (s : ℕ) (intent : Intent)
    (hfrom : w.tasks i = .handling role phase) (hs : w.current = some s)
    (hto : ∀ t, phase' ≠ .waiting t) :
    Effect w i o
      { (w.modify s fun x => { x with trustStore := x.trustStore.set intent.name intent.certificate }).setTask
          i (.handling role phase') with
        uses := (i, s) :: w.uses }
  | receive (role : SessionRole) (s : ℕ) (j : ι) (post : JoinPost)
    (hfrom : w.tasks i = .handling role (.waiting s)) (hj : w.tasks j = .sending post s) :
    Effect w i o
      { (w.deliver j (.handler i)).setTask i (.handling role (.forwarding post.intent)) with
        uses := (i, s) :: w.uses }
  | stopSession (s : ℕ) (l : RwLock ι) (hfrom : w.tasks i = .leaving) (hs : w.current = some s)
    (hl : w.sessionLock.lock i = some l) :
    Effect w i o
      { w.setTask i (.stopping .deferred s .locking) with sessionLock := l, uses := (i, s) :: w.uses }
  | noSession (hfrom : w.tasks i = .leaving) (hs : w.current = none) : Effect w i o (w.setTask i (.done true))
  | lockSession (by_ : StopBy) (s : ℕ) (phase : StopPhase)
    (hfrom : w.tasks i = .stopping by_ s .locking) (hto : phase = .responder ∨ phase = .writing) :
    Effect w i o ((w.modify s fun x => { x with lock := some i }).setTask i (.stopping by_ s phase))
  | stop (by_ : StopBy) (s : ℕ) (phase phase' : StopPhase) (hfrom : w.tasks i = .stopping by_ s phase)
    (hto : phase'.cleared = true → phase' ≠ .closing ∧ phase = .probing) :
    Effect w i o (w.setTask i (.stopping by_ s phase'))
  | probe (by_ : StopBy) (s : ℕ) (hfrom : w.tasks i = .stopping by_ s .probing) :
    Effect w i o (w.setTask i (.stopping by_ s .closing))
  | abandon (by_ : StopBy) (s : ℕ) (phase : StopPhase) (hfrom : w.tasks i = .stopping by_ s phase)
    (hphase : phase = .writing ∨ phase = .responder) (ho : o = .fails) :
    Effect w i o (w.stopped i by_ s false)
  | clear (by_ : StopBy) (s : ℕ) (x : Session ι) (hfrom : w.tasks i = .stopping by_ s .clearing)
    (hx : w.sessions[s]? = some x) :
    Effect w i o ((w.modify s fun x =>
      { x with passphrase := "", trustStore := [], joinIntentFingerprints := [], failedAttempts := 0 }).setTask i
        (.stopping by_ s .probing))
  | take (by_ : StopBy) (s : ℕ) (j : ι) (hfrom : w.tasks i = .stopping by_ s .probing)
    (hj : (w.tasks j).sendsOn s = true) :
    Effect w i o ((w.deliver j (.stop i)).setTask i (.stopping by_ s .exiting))
  | close (by_ : StopBy) (s : ℕ) (hfrom : w.tasks i = .stopping by_ s .closing) :
    Effect w i o (w.closeIntents i by_ s)
  | exit (by_ : StopBy) (s : ℕ) (closes : Bool) (hfrom : w.tasks i = .stopping by_ s .exiting) :
    Effect w i o ((w.modify s fun x => { x with exitClosed := closes || x.exitClosed }).stopped i by_ s true)
  | lets (post : JoinPost) (s : ℕ) (x : Session ι) (hfrom : w.tasks i = .fresh (.join post))
    (hlock : ∃ l, w.sessionLock.lock i = some l) (hx : w.sessions[s]? = some x) (hpass : x.passphrase ≠ "") :
    Effect w i o { w.setTask i (.passed post) with passed := (s, w.wrong.count s) :: w.passed }
  | wrong (post : JoinPost) (s : ℕ) (x : Session ι) (hfrom : w.tasks i = .fresh (.join post))
    (hlock : ∃ l, w.sessionLock.lock i = some l) (hx : w.sessions[s]? = some x) (hpass : x.passphrase ≠ "")
    (hmore : x.failedAttempts ≠ allowedFailedJoinAttempts) :
    Effect w i o
      { (w.modify s fun x => { x with failedAttempts := x.failedAttempts + 1 }).setTask i (.done false) with
        wrong := s :: w.wrong }
  | exceeds (post : JoinPost) (s : ℕ) (x : Session ι) (l : RwLock ι) (hfrom : w.tasks i = .fresh (.join post))
    (hl : w.sessionLock.lock i = some l) (hx : w.sessions[s]? = some x) :
    Effect w i o
      { w.setTask i (.stopping .limit s .locking) with sessionLock := l, wrong := s :: w.wrong }
  | enter (post : JoinPost) (s : ℕ) (x : Session ι) (l : RwLock ι) (hfrom : w.tasks i = .passed post)
    (hl : w.sessionLock.rlock i = some l) (hx : w.sessions[s]? = some x) (hpass : x.passphrase ≠ "") :
    Effect w i o { w.setTask i (.inside post s) with sessionLock := l }
  | register (post : JoinPost) (s : ℕ) (fingerprint : String) (hfrom : w.tasks i = .inside post s) :
    Effect w i o ((w.modify s fun x =>
      { x with joinIntentFingerprints := x.joinIntentFingerprints ++ [fingerprint] }).setTask i
        (.registered post s))
  | send (post : JoinPost) (s : ℕ) (hfrom : w.tasks i = .registered post s)
    (hopen : w.sessions[s]?.any (·.intentsClosed) = false) : Effect w i o (w.setTask i (.sending post s))
  | panic (post : JoinPost) (s : ℕ) (hfrom : w.tasks i = .registered post s)
    (hclosed : w.sessions[s]?.any (·.intentsClosed) = true) :
    Effect w i o ((w.leave i false).setTask i .panicked)
  | leave (s : ℕ) (hfrom : (w.tasks i).posts s = true) : Effect w i o (w.leave i false)
  | put (s : ℕ) (l : RwLock ι) (hfrom : w.tasks i = .fresh .stop) (hl : w.sessionLock.rlock i = some l) :
    Effect w i o { w.setTask i (.stopping .put s .locking) with sessionLock := l }

/-! ### Every step has its effect -/

variable {w w' : World ι} {i : ι} {o : Outcome ι}

theorem sessionGet_effect (hfrom : w.tasks i = .fresh (.session role))
    (h : w.sessionGet i role = some w') : Effect w i o w' := by
  unfold sessionGet at h
  split_ifs at h
  obtain ⟨a, -, rfl⟩ := map_eq_some_iff.mp h
  have hnew : (w.tasks i).joins ≠ true := by
    rw [hfrom]
    exact Bool.false_ne_true
  cases a with
  | none => exact .idle _ (by rw [hfrom]; rfl) rfl fun h => absurd h hnew
  | some x => exact .idle _ (by rw [hfrom]; rfl) rfl fun h => absurd h hnew

theorem startSession_effect {given generated : String}
    (hfrom : w.tasks i = .asked role given) (h : w.startSession i role given generated = some w') :
    Effect w i (.passphrase generated) w' := by
  unfold startSession at h
  dsimp only at h
  generalize (if given = "" then generated else given) = passphrase at h
  split_ifs at h with hpass
  obtain ⟨l, hl, rfl⟩ := map_eq_some_iff.mp h
  refine .start role given _ _ ⟨generated, rfl⟩ hfrom ?_ hpass ⟨l, hl⟩
  cases role with
  | initiating => exact .inl rfl
  | joining => exact .inr rfl

theorem allow_effect {phase phase' : HandlerPhase} {intent : Intent}
    (hfrom : w.tasks i = .handling role phase) (hto : ∀ t, phase' ≠ .waiting t)
    (h : w.allow i intent (.handling role phase') = some w') : Effect w i o w' := by
  obtain ⟨⟨s, x⟩, hsession, h⟩ := bind_eq_some_iff.mp h
  dsimp only at h
  split_ifs at h
  rw [← some.inj h]
  exact .allow role phase phase' s intent hfrom (session_eq_some.mp hsession).1 hto

theorem select_effect (hfrom : w.tasks i = .handling role (.waiting s))
    (h : w.select i role s o = some w') : Effect w i o w' := by
  cases o with
  | takes j =>
    simp only [select] at h
    split at h
    · rename_i post t hj
      split_ifs at h with ht
      subst ht
      rw [← some.inj h]
      exact .receive role t j post hfrom hj
    · exact nomatch h
  | closed =>
    simp only [select] at h
    split_ifs at h
    rw [← some.inj h]
    refine .handler role _ _ hfrom ?_
    cases role with
    | initiating => exact .inr ⟨.looping, rfl, fun s hs => nomatch hs⟩
    | joining => exact .inl rfl
  | confirms intents =>
    simp only [select] at h
    split_ifs at h
    rw [← some.inj h]
    exact .handler role _ _ hfrom (.inr ⟨_, rfl, fun s hs => nomatch hs⟩)
  | fails =>
    rw [← some.inj h]
    exact .handler role _ _ hfrom (.inl rfl)
  | ok | passphrase _ => exact nomatch h

theorem handle_effect {phase : HandlerPhase} (hfrom : w.tasks i = .handling role phase)
    (h : w.handle i role phase o = some w') : Effect w i o w' := by
  have hgoes : ∀ phase', (∀ s, phase' ≠ .waiting s) → w' = w.setTask i (.handling role phase') →
      Effect w i o w' := by
    intro phase' hwait hw
    rw [hw]
    exact .handler role phase _ hfrom (.inr ⟨phase', rfl, fun s hs => absurd hs (hwait s)⟩)
  have hreturns : w' = w.setTask i .leaving → Effect w i o w' := by
    intro hw
    rw [hw]
    exact .handler role phase _ hfrom (.inl rfl)
  unfold handle at h
  split at h
  · obtain ⟨s, hs, rfl⟩ := map_eq_some_iff.mp h
    exact .discovery role s _ hfrom hs (.inr rfl)
  · obtain ⟨s, hs, rfl⟩ := map_eq_some_iff.mp h
    exact .discovery role s _ hfrom hs (.inl rfl)
  · obtain ⟨⟨s, x⟩, -, h⟩ := bind_eq_some_iff.mp h
    dsimp only at h
    split_ifs at h
    exact hgoes .looping (fun s hs => nomatch hs) (some.inj h).symm
  · exact hgoes .looping (fun s hs => nomatch hs) (some.inj h).symm
  · obtain ⟨s, hs, rfl⟩ := map_eq_some_iff.mp h
    refine .handler role _ _ hfrom (.inr ⟨.waiting s, rfl, fun t ht => ?_⟩)
    rw [← HandlerPhase.waiting.inj ht]
    exact hs
  · exact select_effect hfrom h
  · split_ifs at h
    cases role with
    | initiating => exact hgoes .looping (fun s hs => nomatch hs) (some.inj h).symm
    | joining => exact hgoes (.trusting _) (fun s hs => nomatch hs) (some.inj h).symm
  · exact allow_effect hfrom (by simp) h
  · exact hgoes .confirming (fun s hs => nomatch hs) (some.inj h).symm
  · exact hreturns (some.inj h).symm
  · exact allow_effect hfrom (by simp) h
  · exact hreturns (some.inj h).symm
  · exact nomatch h
  · exact hreturns (some.inj h).symm
  · exact nomatch h

theorem stopSession_effect (hfrom : w.tasks i = .leaving) (h : w.stopSession i = some w') :
    Effect w i o w' := by
  obtain ⟨l, hl, rfl⟩ := map_eq_some_iff.mp h
  cases hs : w.current with
  | some s => exact .stopSession s l hfrom hs hl
  | none => exact .noSession hfrom hs

theorem stop_effect
    (hfrom : w.tasks i = .stopping by_ s phase) (hx : w.sessions[s]? = some x)
    (h : w.stop i by_ s x phase o = some w') : Effect w i o w' := by
  have hgoes : ∀ phase', (phase'.cleared = true → phase' ≠ .closing ∧ phase = .probing) →
      w' = w.setTask i (.stopping by_ s phase') → Effect w i o w' := by
    intro phase' hto hw
    rw [hw]
    exact .stop by_ s phase phase' hfrom hto
  unfold stop at h
  split at h
  · split_ifs at h with hlock
    all_goals
      rw [← some.inj h]
      exact .lockSession by_ s _ hfrom (by simp)
  · split_ifs at h
    exact hgoes .hangingUp (fun hc => absurd hc (by decide)) (some.inj h).symm
  · rw [← some.inj h]
    exact .abandon by_ s _ hfrom (.inl rfl) rfl
  · split_ifs at h
    exact hgoes .responder (fun hc => absurd hc (by decide)) (some.inj h).symm
  · exact hgoes .clearing (fun hc => absurd hc (by decide)) (some.inj h).symm
  · split_ifs at h
    rw [← some.inj h]
    exact .abandon by_ s _ hfrom (.inr rfl) rfl
  · rw [← some.inj h]
    exact .clear by_ s x hfrom hx
  · split_ifs at h with hj
    rw [← some.inj h]
    exact .take by_ s _ hfrom hj
  · split_ifs at h
    exact hgoes .exiting (fun _ => ⟨fun hc => (nomatch hc), rfl⟩) (some.inj h).symm
  · split_ifs at h
    rw [← some.inj h]
    exact .probe by_ s hfrom
  · rw [← some.inj h]
    exact .close by_ s hfrom
  · rw [← some.inj h]
    exact .exit by_ s true hfrom
  · have hsame : w.modify s (fun x => { x with exitClosed := false || x.exitClosed }) = w := by
      have hid : (fun x : Session ι => { x with exitClosed := false || x.exitClosed }) = id := rfl
      rw [hid]
      unfold World.modify
      rw [List.modify_id]
    have hexit := Effect.exit (o := .fails) by_ s false hfrom
    rw [hsame] at hexit
    rw [← some.inj h]
    exact hexit
  · exact nomatch h

theorem authHandlerHMAC_effect (hfrom : w.tasks i = .fresh (.join post))
    (h : w.authHandlerHMAC i post = some w') : Effect w i o w' := by
  obtain ⟨l, hl, h⟩ := bind_eq_some_iff.mp h
  obtain ⟨a, ha, rfl⟩ := map_eq_some_iff.mp h
  cases a with
  | none => exact .idle _ (by rw [hfrom]; rfl) rfl fun _ => rfl
  | some a =>
    obtain ⟨s, x⟩ := a
    obtain ⟨-, hx, -, hpass⟩ := transaction_eq_some ha
    dsimp only
    split_ifs with hright hmany
    · exact .lets post s x hfrom ⟨l, hl⟩ hx hpass
    · exact .exceeds post s x l hfrom hl hx
    · exact .wrong post s x hfrom ⟨l, hl⟩ hx hpass hmany

theorem sessionJoinPost_effect (hfrom : w.tasks i = .passed post)
    (h : w.sessionJoinPost i post o = some w') : Effect w i o w' := by
  unfold sessionJoinPost at h
  split at h
  · rw [← some.inj h]
    exact .idle _ (by rw [hfrom]; rfl) rfl fun _ => rfl
  · obtain ⟨l, hl, h⟩ := bind_eq_some_iff.mp h
    obtain ⟨a, ha, rfl⟩ := map_eq_some_iff.mp h
    cases a with
    | none => exact .idle _ (by rw [hfrom]; rfl) rfl fun _ => rfl
    | some a =>
      obtain ⟨s, x⟩ := a
      obtain ⟨-, hx, -, hpass⟩ := transaction_eq_some ha
      exact .enter post s x l hfrom hl hx hpass
  · exact nomatch h

theorem registerIntent_effect (hfrom : w.tasks i = .inside post s)
    (h : w.registerIntent i post s o = some w') : Effect w i o w' := by
  have hleave : w' = w.leave i false → Effect w i o w' := by
    intro hw
    rw [hw]
    exact .leave s (by rw [hfrom]; exact decide_eq_true rfl)
  unfold registerIntent at h
  split at h
  · exact hleave (some.inj h).symm
  · split at h
    · exact hleave (some.inj h).symm
    · rename_i fingerprint _
      obtain ⟨x, -, h⟩ := bind_eq_some_iff.mp h
      split_ifs at h
      · exact hleave (some.inj h).symm
      · rw [← some.inj h]
        exact .register post s fingerprint hfrom
  · exact nomatch h

theorem send_effect (hfrom : w.tasks i = .registered post s)
    (h : w.send i post s o = some w') : Effect w i o w' := by
  unfold send at h
  split at h
  · rw [← some.inj h]
    exact .leave s (by rw [hfrom]; exact decide_eq_true rfl)
  · split_ifs at h with hclosed
    · rw [← some.inj h]
      exact .panic post s hfrom hclosed
    · rw [← some.inj h]
      exact .send post s hfrom (by simpa using hclosed)
  · exact nomatch h

theorem sessionStopPut_effect (hfrom : w.tasks i = .fresh .stop) (h : w.sessionStopPut i o = some w') :
    Effect w i o w' := by
  unfold sessionStopPut at h
  split at h
  · rw [← some.inj h]
    exact .idle _ (by rw [hfrom]; rfl) rfl fun _ => rfl
  · obtain ⟨l, hl, h⟩ := bind_eq_some_iff.mp h
    obtain ⟨a, -, rfl⟩ := map_eq_some_iff.mp h
    cases a with
    | none => exact .idle _ (by rw [hfrom]; rfl) rfl fun _ => rfl
    | some a => exact .put a.1 l hfrom hl
  · exact nomatch h

theorem go_effect (h : w.go i o = some w') : Effect w i o w' := by
  unfold go at h
  split at h
  case h_1 role hfrom => exact sessionGet_effect hfrom h
  case h_2 post hfrom => exact authHandlerHMAC_effect hfrom h
  case h_3 hfrom => exact sessionStopPut_effect hfrom h
  case h_4 role hfrom =>
    split at h
    · rw [← some.inj h]
      refine .idle _ (by rw [hfrom]; rfl) rfl ?_
      rw [hfrom]
      exact nofun
    · rw [← some.inj h]
      exact .idle _ (by rw [hfrom]; rfl) rfl fun _ => rfl
    · exact nomatch h
  case h_5 role given hfrom =>
    split at h
    · exact startSession_effect hfrom h
    · rw [← some.inj h]
      exact .idle _ (by rw [hfrom]; rfl) rfl fun _ => rfl
    · exact nomatch h
  case h_6 role phase hfrom => exact handle_effect hfrom h
  case h_7 hfrom => exact stopSession_effect hfrom h
  case h_8 by_ s phase hfrom =>
    obtain ⟨x, hx, h⟩ := bind_eq_some_iff.mp h
    exact stop_effect hfrom hx h
  case h_9 post hfrom => exact sessionJoinPost_effect hfrom h
  case h_10 post s hfrom => exact registerIntent_effect hfrom h
  case h_11 post s hfrom => exact send_effect hfrom h
  case h_12 post s hfrom =>
    split_ifs at h
    rw [← some.inj h]
    exact .leave s (by rw [hfrom]; exact decide_eq_true rfl)
  case h_13 => exact nomatch h
  case h_14 => exact nomatch h

/-! ### Who holds the lock -/

theorem tasks_leave (w : World ι) (i : ι) (ok : Bool) (j : ι) :
    (w.leave i ok).tasks j = if j = i then .done ok else w.tasks j :=
  tasks_setTask w i _ j

theorem tasks_finish (w : World ι) (i : ι) (by_ : StopBy) (ok : Bool) (j : ι) :
    ∃ b, (w.finish i by_ ok).tasks j = (if j = i then .done b else w.tasks j) ∧
      (by_ = .limit → b = false) := by
  cases by_ with
  | put => exact ⟨ok, tasks_setTask w i _ j, fun h => (nomatch h)⟩
  | limit => exact ⟨false, tasks_setTask w i _ j, fun _ => rfl⟩
  | deferred => exact ⟨ok, tasks_setTask w i _ j, fun h => (nomatch h)⟩

theorem Guarded.setTask (hg : Guarded w) (w' : World ι) (t : Task) (hl : w'.sessionLock = w.sessionLock)
    (ht : w'.tasks = (w.setTask i t).tasks) (hw : t.writes = true → (w.tasks i).writes = true)
    (hr : t.reads = true → (w.tasks i).reads = true) : Guarded w' := by
  refine hg.mono w' hl fun j => ?_
  rw [ht, tasks_setTask]
  split_ifs with hj
  · rw [hj]
    exact .inr ⟨hw, hr⟩
  · exact .inl rfl

theorem Guarded.leave (hg : Guarded w) (j : ι) (ok : Bool) : Guarded (w.leave j ok) := by
  refine RwLock.Guards.runlock hg ?_ ?_
  · intro k hk
    rw [tasks_leave] at hk
    split_ifs at hk
    · exact nomatch hk
    · exact hk
  · intro k hk
    rw [tasks_leave] at hk
    split_ifs at hk with hkj
    · exact nomatch hk
    · exact ⟨hk, decide_eq_false hkj⟩

theorem Guarded.stopped (hg : Guarded w) (ok : Bool)
    (hfrom : w.tasks i = .stopping by_ s phase) : Guarded (w.stopped i by_ s ok) := by
  have hmodified : Guarded (w.modify s fun x => { x with lock := none }) := hg
  have hunlock : ∀ b, (w.tasks i).writes = true →
      Guarded { (w.modify s fun x => { x with lock := none }).setTask i (.done b) with
        sessionLock := w.sessionLock.unlock } := by
    intro b hi
    refine RwLock.Guards.unlock hg hi ?_ ?_
    all_goals
      intro k hk
      rw [tasks_setTask] at hk
      split_ifs at hk with hki
      · exact nomatch hk
    · exact ⟨hk, hki⟩
    · exact hk
  cases by_ with
  | put => exact hmodified.leave i ok
  | limit => exact hunlock false (by rw [hfrom]; rfl)
  | deferred => exact hunlock ok (by rw [hfrom]; rfl)

theorem Effect.guarded (h : Effect w i o w') (hg : Guarded w) : Guarded w' := by
  -- Where the lock is taken: nobody else moves.
  have hlock : ∀ (w' : World ι) (t : Task) (l : RwLock ι), w.sessionLock.lock i = some l →
      w'.sessionLock = l → w'.tasks = (w.setTask i t).tasks → t.reads = false → Guarded w' := by
    intro w' t l hl hl' ht hr
    unfold Guarded
    rw [hl', ht]
    refine RwLock.Guards.lock hg hl ?_ ?_
    · intro k hk
      rw [tasks_setTask] at hk
      split_ifs at hk with hki
      · exact .inr hki
      · exact .inl hk
    · intro k hk
      rw [tasks_setTask] at hk
      split_ifs at hk with hki
      · rw [hr] at hk
        exact nomatch hk
      · exact hk
  have hrlock : ∀ (w' : World ι) (t : Task) (l : RwLock ι), w.sessionLock.rlock i = some l →
      w'.sessionLock = l → w'.tasks = (w.setTask i t).tasks → t.writes = false → Guarded w' := by
    intro w' t l hl hl' ht hw
    unfold Guarded
    rw [hl', ht]
    refine RwLock.Guards.rlock hg hl ?_ ?_
    · intro k hk
      rw [tasks_setTask] at hk
      split_ifs at hk with hki
      · rw [hw] at hk
        exact nomatch hk
      · exact hk
    · intro k hk
      rw [tasks_setTask] at hk
      split_ifs at hk with hki
      · exact .inr hki
      · exact .inl hk
  cases h with
  | idle t hfrom hto hjoins =>
    obtain ⟨hw, hr, -⟩ := Task.of_idle hto
    refine hg.setTask _ t rfl rfl ?_ ?_
    · rw [hw]
      exact nofun
    · rw [hr]
      exact nofun
  | start role given passphrase phase ho hfrom hphase hpass hl =>
    exact hg.setTask _ _ rfl rfl (nofun) (nofun)
  | handler role phase t hfrom hto =>
    refine hg.setTask _ t rfl rfl ?_ ?_
    all_goals
      intro h
      rcases hto with rfl | ⟨phase', rfl, -⟩ <;> exact nomatch h
  | discovery role s t hfrom hs hto =>
    refine hg.setTask _ t rfl rfl ?_ ?_
    all_goals
      intro h
      rcases hto with rfl | rfl <;> exact nomatch h
  | allow role phase phase' s intent hfrom hs hto =>
    exact hg.setTask _ _ rfl rfl (nofun) (nofun)
  | receive role s j post hfrom hj =>
    exact (hg.leave j true).setTask _ _ rfl rfl (nofun) (nofun)
  | stopSession s l hfrom hs hl => exact hlock _ _ l hl rfl rfl rfl
  | noSession hfrom hs => exact hg.setTask _ _ rfl rfl (nofun) (nofun)
  | lockSession by_ s phase hfrom hto =>
    refine hg.setTask _ _ rfl rfl ?_ ?_
    all_goals
      rw [hfrom]
      cases by_ <;> exact id
  | stop by_ s phase phase' hfrom hto =>
    refine hg.setTask _ _ rfl rfl ?_ ?_
    all_goals
      rw [hfrom]
      cases by_ <;> exact id
  | probe by_ s hfrom =>
    refine hg.setTask _ _ rfl rfl ?_ ?_
    all_goals
      rw [hfrom]
      cases by_ <;> exact id
  | abandon by_ s phase hfrom hphase ho => exact hg.stopped false hfrom
  | clear by_ s x hfrom hx =>
    refine hg.setTask _ _ rfl rfl ?_ ?_
    all_goals
      rw [hfrom]
      cases by_ <;> exact id
  | take by_ s j hfrom hj =>
    have hne : i ≠ j := by
      intro hij
      rw [← hij, hfrom] at hj
      exact nomatch hj
    have hi : (w.leave j true).tasks i = .stopping by_ s .probing := by
      rw [tasks_leave, if_neg hne, hfrom]
    refine (hg.leave j true).setTask _ _ rfl rfl ?_ ?_
    all_goals
      rw [hi]
      cases by_ <;> exact id
  | close by_ s hfrom =>
    have htasks : ∀ k, (w.closeIntents i by_ s).tasks k =
        if k = i then .stopping by_ s .exiting else if (w.tasks k).sendsOn s then .panicked
          else w.tasks k := by
      intro k
      by_cases hk : k = i
      · subst hk
        simp [closeIntents]
      · simp [closeIntents, hk]
    refine RwLock.Guards.runlock hg ?_ ?_
    · intro k hk
      rw [htasks] at hk
      split_ifs at hk with hki hsends
      · rw [hki, hfrom]
        cases by_ <;> exact hk
      · exact nomatch hk
      · exact hk
    · intro k hk
      rw [htasks] at hk
      split_ifs at hk with hki hsends
      · rw [hki, hfrom]
        refine ⟨?_, rfl⟩
        cases by_ <;> exact hk
      · exact nomatch hk
      · exact ⟨hk, by simpa using hsends⟩
  | exit by_ s closes hfrom =>
    have hmodified : Guarded (w.modify s fun x => { x with exitClosed := closes || x.exitClosed }) := hg
    exact hmodified.stopped true hfrom
  | lets post s x hfrom hl hx hpass => exact hg.setTask _ _ rfl rfl (nofun) (nofun)
  | wrong post s x hfrom hl hx hpass hmore =>
    exact hg.setTask _ _ rfl rfl (nofun) (nofun)
  | exceeds post s x l hfrom hl hx => exact hlock _ _ l hl rfl rfl rfl
  | enter post s x l hfrom hl hx hpass => exact hrlock _ _ l hl rfl rfl rfl
  | register post s fingerprint hfrom =>
    refine hg.setTask _ _ rfl rfl (nofun) fun _ => ?_
    rw [hfrom]
    rfl
  | send post s hfrom hopen =>
    refine hg.setTask _ _ rfl rfl (nofun) fun _ => ?_
    rw [hfrom]
    rfl
  | panic post s hfrom hclosed =>
    exact (hg.leave i false).setTask _ _ rfl rfl (nofun) (nofun)
  | leave s hfrom => exact hg.leave i false
  | put s l hfrom hl => exact hrlock _ _ l hl rfl rfl rfl

omit [DecidableEq ι] in
theorem guarded_start (requests : ι → Request) : Guarded (start requests) :=
  ⟨fun _ h => (nomatch h), fun _ h => (nomatch h)⟩

/-! ### Who else moves -/

/-- The other requests stay where they are, but for posts that wait in a send: their intent is
received, or they panic as the channel is closed. -/
theorem Effect.others (h : Effect w i o w') {j : ι} (hj : j ≠ i) :
    w'.tasks j = w.tasks j ∨
      ∃ s, (w.tasks j).sendsOn s = true ∧
        ((w'.tasks j = .done true ∧ ∃ r, (j, r) ∈ w'.received) ∨
          (w'.tasks j = .panicked ∧ ∃ by_, w.tasks i = .stopping by_ s .closing)) := by
  have hset : ∀ (v : World ι) (t : Task), (v.setTask i t).tasks j = v.tasks j := by
    intro v t
    rw [tasks_setTask, if_neg hj]
  have hdeliver : ∀ (k : ι) (t : Task), ((w.leave k true).setTask i t).tasks j = w.tasks j ∨
      j = k ∧ ((w.leave k true).setTask i t).tasks j = .done true := by
    intro k t
    rw [hset, tasks_leave]
    split_ifs with hk
    · exact .inr ⟨hk, rfl⟩
    · exact .inl rfl
  have hfinish : ∀ (v : World ι) (by_ : StopBy) (s : ℕ) (ok : Bool), v.tasks = w.tasks →
      (v.stopped i by_ s ok).tasks j = w.tasks j := by
    intro v by_ s ok hv
    obtain ⟨b, hb, -⟩ := tasks_finish (v.modify s fun x => { x with lock := none }) i by_ ok j
    show ((v.modify s fun x => { x with lock := none }).finish i by_ ok).tasks j = w.tasks j
    rw [hb, if_neg hj]
    exact congrFun hv j
  cases h with
  | receive role s k post hfrom hk =>
    rcases hdeliver k (.handling role (.forwarding post.intent)) with h | ⟨rfl, h⟩
    · exact .inl h
    · exact .inr ⟨s, by rw [hk]; exact decide_eq_true rfl, .inl ⟨h, _, List.mem_cons_self⟩⟩
  | take by_ s k hfrom hk =>
    rcases hdeliver k (.stopping by_ s .exiting) with h | ⟨rfl, h⟩
    · exact .inl h
    · exact .inr ⟨s, hk, .inl ⟨h, _, List.mem_cons_self⟩⟩
  | close by_ s hfrom =>
    have htask : (w.closeIntents i by_ s).tasks j =
        if (w.tasks j).sendsOn s then .panicked else w.tasks j := by
      simp [closeIntents, hj]
    rw [htask]
    split_ifs with hsends
    · exact .inr ⟨s, hsends, .inr ⟨rfl, by_, hfrom⟩⟩
    · exact .inl rfl
  | abandon by_ s phase hfrom hphase ho => exact .inl (hfinish w by_ s false rfl)
  | exit by_ s closes hfrom => exact .inl (hfinish _ by_ s true rfl)
  | panic post s hfrom hclosed =>
    refine .inl ?_
    rw [hset, tasks_leave, if_neg hj]
  | leave s hfrom =>
    refine .inl ?_
    rw [tasks_leave, if_neg hj]
  | _ => exact .inl (hset _ _)

theorem Effect.stopping (h : Effect w i o w') {j : ι} (hj : j ≠ i) :
    w'.tasks j = .stopping by_ s phase ↔ w.tasks j = .stopping by_ s phase := by
  rcases h.others hj with hsame | ⟨t, hsends, ⟨hend, -⟩ | ⟨hend, -⟩⟩
  · rw [hsame]
  all_goals
    rw [hend]
    constructor
    · exact nofun
    · intro hstop
      rw [hstop] at hsends
      exact nomatch hsends

/-! ### What becomes of a session -/

structure After (w w' : World ι) (i : ι) (s : ℕ) (x y : Session ι) : Prop where
  gw : y.gw = x.gw
  passphrase : y.passphrase = x.passphrase ∨ y.passphrase = ""
  intentsClosed : y.intentsClosed = true → x.intentsClosed = true ∨ ∃ by_,
    w.tasks i = .stopping by_ s .closing
  attempts : y.passphrase ≠ "" → x.failedAttempts ≤ allowedFailedJoinAttempts →
    y.failedAttempts ≤ allowedFailedJoinAttempts ∧
      (y.failedAttempts + w.wrong.count s = x.failedAttempts + w'.wrong.count s ∨
        w'.tasks i = .stopping .limit s .locking)

omit [DecidableEq ι] in
theorem After.of_eq {x y : Session ι} (hgw : y.gw = x.gw) (hpass : y.passphrase = x.passphrase)
    (hclosed : y.intentsClosed = x.intentsClosed) (hattempts : y.failedAttempts = x.failedAttempts)
    (hwrong : w'.wrong.count s = w.wrong.count s) : After w w' i s x y := by
  refine ⟨hgw, .inl hpass, fun h => .inl (hclosed ▸ h), fun _ hle => ⟨hattempts ▸ hle, .inl ?_⟩⟩
  rw [hattempts, hwrong]

theorem Effect.session (h : Effect w i o w') (hx : w.sessions[s]? = some x) :
    ∃ y, w'.sessions[s]? = some y ∧ After w w' i s x y := by
  have hsame : w'.wrong.count s = w.wrong.count s → After w w' i s x x :=
    fun hwrong => After.of_eq rfl rfl rfl rfl hwrong
  -- One session is modified.
  have hmodify : ∀ (t : ℕ) (f : Session ι → Session ι), w'.sessions = w.sessions.modify t f →
      (t ≠ s → w'.wrong.count s = w.wrong.count s) → (t = s → After w w' i s x (f x)) →
      ∃ y, w'.sessions[s]? = some y ∧ After w w' i s x y := by
    intro t f hw hwrong hf
    have hget := get_modify w t f s
    rw [hx] at hget
    by_cases hts : t = s
    · rw [if_pos hts] at hget
      exact ⟨f x, (congrArg (·[s]?) hw).trans hget, hf hts⟩
    · rw [if_neg hts] at hget
      exact ⟨x, (congrArg (·[s]?) hw).trans hget, hsame (hwrong hts)⟩
  have hfinish : ∀ (v : World ι) (by_ : StopBy) (t : ℕ) (ok : Bool) (f : Session ι → Session ι),
      v.sessions = w.sessions.modify t f → w' = v.stopped i by_ t ok → w'.wrong = w.wrong →
      (∀ x, After w w' i s x { f x with lock := none }) →
      ∃ y, w'.sessions[s]? = some y ∧ After w w' i s x y := by
    intro v by_ t ok f hv hw hwrong hf
    have hsessions : w'.sessions = w.sessions.modify t fun x => { f x with lock := none } := by
      have hmodified : (v.stopped i by_ t ok).sessions = v.sessions.modify t fun x =>
        { x with lock := none } := by
        cases by_ <;> rfl
      rw [hw, hmodified, hv, List.modify_modify_eq]
      rfl
    exact hmodify t _ hsessions (fun _ => by rw [hwrong]) fun _ => hf x
  cases h with
  | start role given passphrase phase ho hfrom hphase hpass hl =>
    have hlt : s < w.sessions.length := (List.getElem?_eq_some_iff.mp hx).1
    refine ⟨x, ?_, hsame rfl⟩
    show (w.sessions ++ [newSession role passphrase i])[s]? = some x
    rw [List.getElem?_append_left hlt, hx]
  | discovery role t task hfrom ht hto =>
    exact hmodify t _ rfl (fun _ => rfl) fun _ => After.of_eq rfl rfl rfl rfl rfl
  | allow role phase phase' t intent hfrom ht hto =>
    exact hmodify t _ rfl (fun _ => rfl) fun _ => After.of_eq rfl rfl rfl rfl rfl
  | lockSession by_ t phase hfrom hto =>
    exact hmodify t _ rfl (fun _ => rfl) fun _ => After.of_eq rfl rfl rfl rfl rfl
  | abandon by_ t phase hfrom hphase ho =>
    refine hfinish w by_ t false id (List.modify_id _ _).symm rfl ?_ fun x => ?_
    · cases by_ <;> rfl
    · refine After.of_eq rfl rfl rfl rfl ?_
      cases by_ <;> rfl
  | clear by_ t z hfrom hz =>
    refine hmodify t _ rfl (fun _ => rfl) fun _ => ⟨rfl, .inr rfl, .inl, fun hpass => ?_⟩
    exact absurd rfl hpass
  | close by_ t hfrom =>
    refine hmodify t _ rfl (fun _ => rfl) fun ht => ⟨rfl, .inl rfl, fun _ => .inr ⟨by_, ht ▸ hfrom⟩, ?_⟩
    exact fun _ hle => ⟨hle, .inl rfl⟩
  | exit by_ t closes hfrom =>
    refine hfinish _ by_ t true _ rfl rfl ?_ fun x => ?_
    · cases by_ <;> rfl
    · refine After.of_eq rfl rfl rfl rfl ?_
      cases by_ <;> rfl
  | wrong post t z hfrom hl hz hpass hmore =>
    refine hmodify t _ rfl (fun hts => List.count_cons_of_ne hts) fun hts => ⟨rfl, .inl rfl, .inl, ?_⟩
    intro _ hle
    subst hts
    rw [some.inj (hz.symm.trans hx)] at hmore
    refine ⟨by dsimp only; omega, .inl ?_⟩
    dsimp only
    rw [List.count_cons_self]
    omega
  | exceeds post t z l hfrom hl hz =>
    by_cases hts : t = s
    · refine ⟨x, hx, rfl, .inl rfl, .inl, fun _ hle => ⟨hle, .inr ?_⟩⟩
      show (w.setTask i (.stopping .limit t .locking)).tasks i = _
      rw [tasks_setTask, if_pos rfl, hts]
    · exact ⟨x, hx, hsame (List.count_cons_of_ne hts)⟩
  | register post t fingerprint hfrom =>
    exact hmodify t _ rfl (fun _ => rfl) fun _ => After.of_eq rfl rfl rfl rfl rfl
  | _ => exact ⟨x, hx, hsame rfl⟩

theorem Effect.new (h : Effect w i o w') {y : Session ι} (hy : w'.sessions[s]? = some y) :
    (∃ x, w.sessions[s]? = some x) ∨
      s = w.sessions.length ∧ w'.wrong = w.wrong ∧ ∃ role passphrase, y = newSession role passphrase i := by
  have hold : w'.sessions.length = w.sessions.length → ∃ x, w.sessions[s]? = some x := by
    intro hlen
    have hlt := (List.getElem?_eq_some_iff.mp hy).1
    exact ⟨_, List.getElem?_eq_getElem (hlen ▸ hlt)⟩
  have hmodify : ∀ (t : ℕ) (f : Session ι → Session ι), (w.sessions.modify t f).length = w.sessions.length :=
    fun t f => List.length_modify f _ t
  have hfinish : ∀ (v : World ι) (by_ : StopBy) (t : ℕ) (ok : Bool),
      (v.stopped i by_ t ok).sessions.length = v.sessions.length := by
    intro v by_ t ok
    cases by_ <;> exact List.length_modify _ _ t
  cases h with
  | start role given passphrase phase ho hfrom hphase hpass hl =>
    have hget : (w.sessions ++ [newSession role passphrase i])[s]? = some y := hy
    rw [List.getElem?_append] at hget
    split_ifs at hget with hlt
    · exact .inl ⟨y, hget⟩
    · have hs : s - w.sessions.length = 0 := by
        have hin := (List.getElem?_eq_some_iff.mp hget).1
        simpa using hin
      rw [hs] at hget
      refine .inr ⟨by omega, rfl, role, passphrase, ?_⟩
      exact (some.inj hget).symm
  | discovery role t task hfrom ht hto => exact .inl (hold (hmodify t _))
  | allow role phase phase' t intent hfrom ht hto => exact .inl (hold (hmodify t _))
  | lockSession by_ t phase hfrom hto => exact .inl (hold (hmodify t _))
  | abandon by_ t phase hfrom hphase ho => exact .inl (hold (hfinish w by_ t false))
  | clear by_ t z hfrom hz => exact .inl (hold (hmodify t _))
  | close by_ t hfrom => exact .inl (hold (hmodify t _))
  | exit by_ t closes hfrom => exact .inl (hold ((hfinish _ by_ t true).trans (hmodify t _)))
  | wrong post t z hfrom hl hz hpass hmore => exact .inl (hold (hmodify t _))
  | register post t fingerprint hfrom => exact .inl (hold (hmodify t _))
  | _ => exact .inl (hold rfl)

def owner (w : World ι) (s : ℕ) : Option ι := (w.sessions[s]?).map (·.gw)

theorem Effect.owner (h : Effect w i o w') {j : ι} (hs : w.owner s = some j) : w'.owner s = some j := by
  obtain ⟨x, hx, hgw⟩ := map_eq_some_iff.mp hs
  obtain ⟨y, hy, hafter⟩ := h.session hx
  exact map_eq_some_iff.mpr ⟨y, hy, hafter.gw.trans hgw⟩

def Inactive (w : World ι) (s : ℕ) : Prop := ∃ x, w.sessions[s]? = some x ∧ x.passphrase = ""

theorem Effect.inactive (h : Effect w i o w') (hs : w.Inactive s) : w'.Inactive s := by
  obtain ⟨x, hx, hpass⟩ := hs
  obtain ⟨y, hy, hafter⟩ := h.session hx
  refine ⟨y, hy, ?_⟩
  rcases hafter.passphrase with hp | hp
  · rw [hp, hpass]
  · exact hp

theorem tasks_stopped (w : World ι) (i : ι) (by_ : StopBy) (s : ℕ) (ok : Bool) :
    ∃ b, (w.stopped i by_ s ok).tasks i = .done b ∧ (by_ = .limit → b = false) := by
  obtain ⟨b, hb, hlimit⟩ := tasks_finish (w.modify s fun x => { x with lock := none }) i by_ ok i
  exact ⟨b, hb.trans (if_pos rfl), hlimit⟩

theorem inactive_clear (hx : w.sessions[s]? = some x) (t : Task) :
    ((w.modify s fun x =>
      { x with passphrase := "", trustStore := [], joinIntentFingerprints := [], failedAttempts := 0 }).setTask i
        t).Inactive s := by
  have hget := get_modify w s (fun x =>
    { x with passphrase := "", trustStore := [], joinIntentFingerprints := [], failedAttempts := 0 }) s
  rw [if_pos rfl, hx] at hget
  exact ⟨_, hget, rfl⟩

theorem Effect.of_stopping (h : Effect w i o w')
    (hfrom : w.tasks i = .stopping by_ s phase) :
    (∃ phase', w'.tasks i = .stopping by_ s phase' ∧
        (phase'.cleared = true → phase.cleared = true ∨ w'.Inactive s) ∧
        (phase' = .closing → phase = .probing)) ∨
      (∃ b, w'.tasks i = .done b ∧ (by_ = .limit → b = false)) ∧
        (phase.cleared = true ∨ (o = .fails ∧ (phase = .writing ∨ phase = .responder))) := by
  have htask : ∀ (v : World ι) (t : Task), (v.setTask i t).tasks i = t := by
    intro v t
    rw [tasks_setTask, if_pos rfl]
  cases h with
  | lockSession by_' s' phase' hat hto =>
    obtain ⟨rfl, rfl, rfl⟩ := Task.stopping.inj (hfrom.symm.trans hat)
    refine .inl ⟨phase', htask _ _, ?_, ?_⟩
    all_goals
      intro hc
      rcases hto with rfl | rfl <;> exact nomatch hc
  | stop by_' s' phase₀ phase' hat hto =>
    obtain ⟨rfl, rfl, rfl⟩ := Task.stopping.inj (hfrom.symm.trans hat)
    refine .inl ⟨phase', htask _ _, fun hc => .inl ?_, fun hclosing => ?_⟩
    · rw [(hto hc).2]
      rfl
    · exact absurd hclosing (hto (by rw [hclosing]; rfl)).1
  | probe by_' s' hat =>
    obtain ⟨rfl, rfl, rfl⟩ := Task.stopping.inj (hfrom.symm.trans hat)
    exact .inl ⟨.closing, htask _ _, fun _ => .inl rfl, fun _ => rfl⟩
  | abandon by_' s' phase' hat hphase ho =>
    obtain ⟨rfl, rfl, rfl⟩ := Task.stopping.inj (hfrom.symm.trans hat)
    exact .inr ⟨tasks_stopped w i _ _ false, .inr ⟨ho, hphase⟩⟩
  | clear by_' s' x hat hx =>
    obtain ⟨rfl, rfl, rfl⟩ := Task.stopping.inj (hfrom.symm.trans hat)
    exact .inl ⟨.probing, htask _ _, fun _ => .inr (inactive_clear hx _), nofun⟩
  | take by_' s' j hat hj =>
    obtain ⟨rfl, rfl, rfl⟩ := Task.stopping.inj (hfrom.symm.trans hat)
    exact .inl ⟨.exiting, htask _ _, fun _ => .inl rfl, nofun⟩
  | close by_' s' hat =>
    obtain ⟨rfl, rfl, rfl⟩ := Task.stopping.inj (hfrom.symm.trans hat)
    refine .inl ⟨.exiting, ?_, fun _ => .inl rfl, nofun⟩
    simp [closeIntents]
  | exit by_' s' closes hat =>
    obtain ⟨rfl, rfl, rfl⟩ := Task.stopping.inj (hfrom.symm.trans hat)
    exact .inr ⟨tasks_stopped _ i _ _ true, .inl rfl⟩
  | idle t hat hto hjoins =>
    rw [hfrom] at hat
    exact nomatch hat
  | leave s' hat =>
    rw [hfrom] at hat
    exact nomatch hat
  | start _ _ _ _ _ hat | handler _ _ _ hat | discovery _ _ _ hat | allow _ _ _ _ _ hat | receive _ _ _ _ hat
  | stopSession _ _ hat | noSession hat | lets _ _ _ hat | wrong _ _ _ hat | exceeds _ _ _ _ hat
  | enter _ _ _ _ hat | register _ _ _ hat | send _ _ hat | panic _ _ hat | put _ _ hat =>
    exact nomatch hfrom.symm.trans hat

theorem Effect.to_stopping (h : Effect w i o w')
    (hto : w'.tasks i = .stopping by_ s phase) :
    phase = .locking ∨ ∃ phase', w.tasks i = .stopping by_ s phase' := by
  have htask : ∀ (v : World ι) (t : Task), (v.setTask i t).tasks i = t := by
    intro v t
    rw [tasks_setTask, if_pos rfl]
  -- A `Stop` that is somewhere in the middle was there before.
  have hstop : ∀ (t : Task) (by_' : StopBy) (s' : ℕ) (phase₀ phase' : StopPhase), w'.tasks i = t →
      w.tasks i = .stopping by_' s' phase₀ → t = .stopping by_' s' phase' →
      phase = .locking ∨ ∃ phase', w.tasks i = .stopping by_ s phase' := by
    intro t by_' s' phase₀ phase' ht hat hmid
    obtain ⟨rfl, rfl, -⟩ := Task.stopping.inj (hto.symm.trans (ht.trans hmid))
    exact .inr ⟨phase₀, hat⟩
  cases h with
  | lockSession by_' s' phase' hat hphase => exact hstop _ by_' s' _ phase' (htask _ _) hat rfl
  | stop by_' s' phase₀ phase' hat hphase => exact hstop _ by_' s' _ phase' (htask _ _) hat rfl
  | probe by_' s' hat => exact hstop _ by_' s' _ .closing (htask _ _) hat rfl
  | clear by_' s' x hat hx => exact hstop _ by_' s' _ .probing (htask _ _) hat rfl
  | take by_' s' j hat hj => exact hstop _ by_' s' _ .exiting (htask _ _) hat rfl
  | close by_' s' hat =>
    refine hstop _ by_' s' _ .exiting ?_ hat rfl
    simp [closeIntents]
  | stopSession s' l hat hs hl => exact .inl (Task.stopping.inj (hto.symm.trans (htask _ _))).2.2
  | exceeds post s' x l hat hl hx => exact .inl (Task.stopping.inj (hto.symm.trans (htask w _))).2.2
  | put s' l hat hl => exact .inl (Task.stopping.inj (hto.symm.trans (htask w _))).2.2
  | abandon by_' s' phase' hat hphase ho =>
    obtain ⟨b, hb, -⟩ := tasks_stopped w i by_' s' false
    exact nomatch hto.symm.trans hb
  | exit by_' s' closes hat =>
    have hend := tasks_stopped (w.modify s' fun x =>
      { x with exitClosed := closes || x.exitClosed }) i by_' s' true
    obtain ⟨b, hb, -⟩ := hend
    exact nomatch hto.symm.trans hb
  | idle t hat hidle hjoins =>
    rw [← htask w t, hto] at hidle
    exact nomatch hidle
  | handler role phase₀ t hat hgoes =>
    rcases hgoes with rfl | ⟨phase', rfl, -⟩ <;> exact nomatch hto.symm.trans (htask w _)
  | discovery role s' t hat hs hgoes =>
    rcases hgoes with rfl | rfl <;> exact nomatch hto.symm.trans (htask _ _)
  | leave s' hat =>
    rw [tasks_leave, if_pos rfl] at hto
    exact nomatch hto
  | start _ _ _ _ _ _ _ _ _ | allow _ _ _ _ _ _ _ _ | receive _ _ _ _ _ _ | noSession _ _ | lets _ _ _ _ _ _ _
  | wrong _ _ _ _ _ _ _ _ | enter _ _ _ _ _ _ _ _ | register _ _ _ _ | send _ _ _ _ | panic _ _ _ _ =>
    exact nomatch hto.symm.trans (htask _ _)

/-- Where `Stop` is past its clearing, the session has no passphrase. -/
def Cleared (w : World ι) : Prop :=
  ∀ j by_ s phase, w.tasks j = .stopping by_ s phase → phase.cleared = true → w.Inactive s

theorem Effect.cleared (h : Effect w i o w') (hc : Cleared w) : Cleared w' := by
  intro j by_ s phase hj hphase
  by_cases hji : j = i
  · subst hji
    rcases h.to_stopping hj with rfl | ⟨phase', hbefore⟩
    · exact nomatch hphase
    · rcases h.of_stopping hbefore with ⟨phase'', hafter, hclear, -⟩ | ⟨⟨b, hend, -⟩, -⟩
      · obtain ⟨-, -, rfl⟩ := Task.stopping.inj (hj.symm.trans hafter)
        rcases hclear hphase with hcleared | hinactive
        · exact h.inactive (hc j by_ s phase' hbefore hcleared)
        · exact hinactive
      · exact nomatch hj.symm.trans hend
  · exact h.inactive (hc j by_ s phase ((h.stopping hji).mp hj) hphase)

end World

end IncusCloud.Firecloud.Trust
